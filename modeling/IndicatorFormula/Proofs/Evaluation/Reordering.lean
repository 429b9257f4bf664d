import IndicatorFormula.Proofs.Evaluation.Basic
import IndicatorFormula.Proofs.Series.Observation

/-!
# Observations in another order

The series of some observations has at most one point for each local date, which is one of the
observations of that date. Where the observations are settled it is the last of them, unless this
is no number; then the series depends on the order of the observations of one date and not on how
those of different dates stand among each other, and nor does the value of a formula or the error
that it ends with. Where they are not settled it need not be the last.
-/

namespace IndicatorFormula

open IndicatorFormula.Except

namespace Series

variable {α : Type} {context : Context} {os os' : List (Observation α)} {d : Date} {x : α}

/-- The observations of a local date, in the order in which they were given. -/
def onDate (context : Context) (d : Date) (os : List (Observation α)) : List (Observation α) :=
  os.filter fun o => (localDate context o.stamp).toOption = some d

/-- Why a stamp has no local date. -/
def undated (context : Context) : ObservationFault :=
  match context.zone? with
  | none => .unknownZone context.timezone
  | some _ => .outOfRange

/-- All stamps that have no local date have none for one reason. -/
theorem eq_undated {s : Stamp} {fault : ObservationFault}
    (h : localDate context s = .error fault) : fault = undated context := by
  unfold localDate at h
  cases hinstant : s.instant? with
  | none => simp [hinstant] at h
  | some instant =>
    cases hzone : context.zone? with
    | none =>
      simp only [hinstant, hzone, Except.error.injEq] at h
      simp only [undated, hzone, h]
    | some zone =>
      cases hdate : zone.dateAt? instant with
      | none =>
        simp only [hinstant, hzone, hdate, Except.error.injEq] at h
        simp only [undated, hzone, h]
      | some d => simp [hinstant, hzone, hdate] at h

/-- A value is not given because it is missing. -/
theorem given_eq_error {v : Option α} {fault : ObservationFault} :
    given v = .error fault ↔ v = none ∧ fault = .missingValue := by
  cases v <;> simp [given, eq_comm]

/-- Observations of which one has no local date are not dated. -/
theorem dated_of_not_areDatable (h : ¬AreDatable context os) :
    dated context os = .error (undated context) := by
  cases hdates : os.mapM fun o => localDate context o.stamp with
  | error fault =>
    obtain ⟨o, -, ho⟩ := error_of_mapM_eq_error hdates
    rw [dated, hdates, eq_undated ho]
    rfl
  | ok ds => exact absurd (fun o ho => ok_of_mapM_eq_ok hdates o ho) h

/-- Observations of which one has no value are not dated. -/
theorem dated_of_not_areValued (hdatable : AreDatable context os) (h : ¬AreValued os) :
    dated context os = .error .missingValue := by
  obtain ⟨ds, hds⟩ := exists_mapM_eq_ok hdatable
  cases hvalues : os.mapM fun o => given o.value with
  | error fault =>
    obtain ⟨o, -, ho⟩ := error_of_mapM_eq_error hvalues
    rw [dated, hds, hvalues, (given_eq_error.mp ho).2]
    rfl
  | ok xs =>
    refine absurd (fun o ho => ?_) h
    obtain ⟨x, hx⟩ := ok_of_mapM_eq_ok hvalues o ho
    exact ⟨x, given_eq_ok.mp hx⟩

/-- The last of some rows is taken where every row is taken. -/
theorem getLast?_filterMap {β γ : Type} {f : β → Option γ} {xs : List β}
    (h : ∀ x ∈ xs, (f x).isSome = true) : (xs.filterMap f).getLast? = xs.getLast?.bind f := by
  induction xs using List.reverseRecOn with
  | nil => rfl
  | append_singleton xs x ih =>
    obtain ⟨y, hy⟩ := Option.isSome_iff_exists.mp (h x (by simp))
    simp [List.filterMap_append, hy]

/-- The points of a date are made of the observations of that date. -/
theorem filter_points (context : Context) (d : Date) (os : List (Observation α)) :
    (os.filterMap (point? context)).filter (fun p => p.1 = d) =
      (onDate context d os).filterMap fun o => o.value.map (d, ·) := by
  rw [onDate, List.filter_filterMap, List.filterMap_filter]
  refine List.filterMap_congr fun o _ => ?_
  cases hd : (localDate context o.stamp).toOption with
  | none => simp [point?, hd]
  | some d' =>
    cases hx : o.value <;> by_cases hdate : d' = d <;> simp [point?, hd, hx, hdate]

/-- A point is one of an observation of its date. -/
theorem mem_points : (d, x) ∈ os.filterMap (point? context) ↔
    ∃ o ∈ onDate context d os, o.value = some x := by
  have hdate : (d, x) ∈ os.filterMap (point? context) ↔
      (d, x) ∈ (os.filterMap (point? context)).filter fun p => p.1 = d := by
    simp
  rw [hdate, filter_points]
  simp

/-- Of the last points one has a date just when the last observation of the date has its value. -/
theorem mem_latest_points (hvalued : AreValued os) :
    (d, x) ∈ latest (os.filterMap (point? context)) ↔
      ∃ o, (onDate context d os).getLast? = some o ∧ o.value = some x := by
  have hsome : ∀ o ∈ onDate context d os, (o.value.map (d, ·)).isSome = true := fun o ho => by
    obtain ⟨x, hx⟩ := hvalued o (List.mem_filter.mp ho).1
    rw [hx]
    rfl
  rw [mem_latest_iff, filter_points, getLast?_filterMap hsome]
  simp [Option.bind_eq_some_iff]

/-- A series of observations that is made of one observation of each date. -/
structure IsChosen [Arith α] (context : Context) (os : List (Observation α)) (s : Series α) :
    Prop where
  /-- The dates strictly increase. -/
  increasing : s.Pairwise fun p q => p.1 < q.1
  /-- A point has a number, which is what an observation of its date says. -/
  given : ∀ d x, (d, x) ∈ s →
    Arith.isNaN x = false ∧ ∃ o ∈ onDate context d os, o.value = some x
  /-- There is a point of each date that was observed, unless one of its observations is no
  number. -/
  complete : ∀ d, onDate context d os ≠ [] →
    d ∈ s.dates ∨ ∃ o ∈ onDate context d os, ∃ x, o.value = some x ∧ Arith.isNaN x = true

/-- A series of observations that has of each date what the last observation of it says, unless
this is no number. -/
def IsLast [Arith α] (context : Context) (os : List (Observation α)) (s : Series α) : Prop :=
  ∀ d x, (d, x) ∈ s ↔
    (∃ o, (onDate context d os).getLast? = some o ∧ o.value = some x) ∧ Arith.isNaN x = false

/-- Observations with dates that can be held and with values make a series. It has one of the
observations of each date, and where they are settled it has the last. -/
theorem exists_ofObservations [Arith α] (hdatable : AreDatable context os)
    (hheld : AreHeld context os) (hvalued : AreValued os) :
    ∃ s, ofObservations context os = .ok s ∧ IsChosen context os s ∧
      (AreSettled context os → IsLast context os s) := by
  have hpoints : ∀ p ∈ os.filterMap (point? context), context.index.holds p.1 = true := by
    intro p hp
    obtain ⟨o, ho, hpoint⟩ := List.mem_filterMap.mp hp
    exact hheld o ho p.1 (point?_eq_some_iff.mp hpoint).1
  refine ⟨_, ofObservations_eq_ok_iff.mpr ⟨hdatable, hvalued, hpoints, rfl⟩, ⟨?_, ?_, ?_⟩, ?_⟩
  · exact (collected_increasing _ _).sublist List.filter_sublist
  · intro d x hx
    obtain ⟨hmem, hnumber⟩ := List.mem_filter.mp hx
    exact ⟨by simpa using hnumber, mem_points.mp (mem_of_mem_collected hmem)⟩
  · intro d hd
    obtain ⟨o, ho⟩ := List.exists_mem_of_ne_nil _ hd
    obtain ⟨y, hy⟩ := hvalued o (List.mem_filter.mp ho).1
    have hdate : d ∈ (collected context.index (os.filterMap (point? context))).dates :=
      mem_dates_collected.mpr (mem_dates.mpr ⟨y, mem_points.mpr ⟨o, ho, hy⟩⟩)
    obtain ⟨x, hx⟩ := mem_dates.mp hdate
    cases hnumber : Arith.isNaN x with
    | false => exact .inl (mem_dates.mpr ⟨x, List.mem_filter.mpr ⟨hx, by simp [hnumber]⟩⟩)
    | true =>
      obtain ⟨o', ho', hx'⟩ := mem_points.mp (mem_of_mem_collected hx)
      exact .inr ⟨o', ho', x, hx', hnumber⟩
  · intro hsettled d x
    rw [collected_of_isSettled _ hsettled, List.mem_filter, mem_latest_points hvalued,
      Bool.not_eq_true']

/-- Observations in another order, in which those of one date keep theirs. -/
structure Reordered (context : Context) (os os' : List (Observation α)) : Prop where
  /-- The observations are the same. -/
  perm : os.Perm os'
  /-- Those of one date stand in the same order. -/
  onDate_eq : ∀ d, onDate context d os = onDate context d os'

/-- Whether observations have local dates does not depend on their order. -/
theorem Reordered.areDatable_iff (h : Reordered context os os') :
    AreDatable context os ↔ AreDatable context os' := by
  simp only [AreDatable, h.perm.mem_iff]

/-- Whether observations have values does not depend on their order. -/
theorem Reordered.areValued_iff (h : Reordered context os os') :
    AreValued os ↔ AreValued os' := by
  simp only [AreValued, h.perm.mem_iff]

/-- The last points do not depend on how those of different dates stand among each other. -/
theorem Reordered.latest_eq (h : Reordered context os os') (hvalued : AreValued os) :
    latest (os.filterMap (point? context)) = latest (os'.filterMap (point? context)) := by
  refine eq_of_increasing (latest_increasing _) (latest_increasing _) fun p => ?_
  rw [mem_latest_points hvalued, mem_latest_points (h.areValued_iff.mp hvalued), h.onDate_eq]

/-- Settled observations in another order make the same series, or none for the same reason. -/
theorem Reordered.ofObservations_eq [Arith α] (h : Reordered context os os')
    (hsettled : AreSettled context os) (hsettled' : AreSettled context os') :
    ofObservations context os = ofObservations context os' := by
  by_cases hdatable : AreDatable context os
  · have hdatable' := h.areDatable_iff.mp hdatable
    by_cases hvalued : AreValued os
    · have hvalued' := h.areValued_iff.mp hvalued
      have hdates : (dates (os.filterMap (point? context))).all context.index.holds =
          (dates (os'.filterMap (point? context))).all context.index.holds :=
        ((h.perm.filterMap _).map Prod.fst).all_eq
      have hindexed : indexed context.index (os.filterMap (point? context)) =
          indexed context.index (os'.filterMap (point? context)) := by
        rw [indexed, indexed, hdates, collected_of_isSettled _ hsettled,
          collected_of_isSettled _ hsettled', h.latest_eq hvalued]
      rw [ofObservations, ofObservations, dated_eq_ok_iff.mpr ⟨hdatable, hvalued, rfl⟩,
        dated_eq_ok_iff.mpr ⟨hdatable', hvalued', rfl⟩]
      simp only [bind, Except.bind, hindexed]
    · have hvalued' := mt h.areValued_iff.mpr hvalued
      rw [ofObservations, ofObservations, dated_of_not_areValued hdatable hvalued,
        dated_of_not_areValued hdatable' hvalued']
  · have hdatable' := mt h.areDatable_iff.mpr hdatable
    rw [ofObservations, ofObservations, dated_of_not_areDatable hdatable,
      dated_of_not_areDatable hdatable']

end Series

namespace Formula

open Series

variable {context : Context} {fetched fetched' : Table String (List (Observation Float))}

/-- What was fetched for the same indicators, the observations of each in another order. -/
abbrev Rearranged (context : Context)
    (fetched fetched' : Table String (List (Observation Float))) : Prop :=
  List.Forall₂ (fun entry entry' => entry.1 = entry'.1 ∧ Reordered context entry.2 entry'.2)
    fetched fetched'

/-- What was fetched for each indicator is settled. -/
abbrev AllSettled (context : Context) (fetched : Table String (List (Observation Float))) : Prop :=
  ∀ entry ∈ fetched, AreSettled context entry.2

/-- Settled observations in another order give the same series. -/
theorem observe_rearranged (h : Rearranged context fetched fetched')
    (hsettled : AllSettled context fetched) (hsettled' : AllSettled context fetched') :
    observe context fetched = observe context fetched' := by
  unfold observe
  induction h with
  | nil => rfl
  | cons hfirst hrest ih =>
    obtain ⟨hentry, hentries⟩ := List.forall_mem_cons.mp hsettled
    obtain ⟨hentry', hentries'⟩ := List.forall_mem_cons.mp hsettled'
    rw [List.mapM_cons, List.mapM_cons, hfirst.1, hfirst.2.ofObservations_eq hentry hentry',
      ih hentries hentries']

/-- Observations that can be dated make a series of one observation of each local date. Where
they are settled it is the last one, and an evaluation does not depend on how observations of
different dates stand among each other. -/
theorem evaluate_reordered (context : Context) :
    (∀ os : List (Observation Float), AreDatable context os →
      AreHeld context os → AreValued os →
      ∃ s, ofObservations context os = .ok s ∧ IsChosen context os s ∧
        (AreSettled context os → IsLast context os s)) ∧
    ∀ (f : Formula) (fetched fetched' : Table String (List (Observation Float))),
      Rearranged context fetched fetched' →
      AllSettled context fetched → AllSettled context fetched' →
      f.evaluate fetched context = f.evaluate fetched' context := by
  refine ⟨fun os => exists_ofObservations, ?_⟩
  intro f fetched fetched' h hsettled hsettled'
  rw [evaluate, evaluate, observe_rearranged h hsettled hsettled']

/-- The morning of the second of January in Tokyo, where it is evening in universal time. -/
def tokyoMorning : Observation Float :=
  ⟨⟨.ofCivil ⟨2024, 1, 1⟩, 20 * 3600, 0, some 0⟩, some 1.0⟩

/-- The second of January, without a number. -/
def withoutNumber : Observation Float := ⟨.ofDate (.ofCivil ⟨2024, 1, 2⟩), some (0.0 / 0.0)⟩

/-- The first of January. -/
def newYear : Observation Float := ⟨.ofDate (.ofCivil ⟨2024, 1, 1⟩), some 3.0⟩

/-- Where an instant has its date in Tokyo. -/
def tokyo : Context := { timezone := "Asia/Tokyo" }

/-- Of three observations two have one date in Tokyo. The first of January may come in front. -/
theorem evaluate_reordered_tokyo :
    (∃ s, ofObservations tokyo [tokyoMorning, withoutNumber, newYear] = .ok s ∧
      IsChosen tokyo [tokyoMorning, withoutNumber, newYear] s ∧
      IsLast tokyo [tokyoMorning, withoutNumber, newYear] s) ∧
    (indicator "x" 0).evaluate [("x", [tokyoMorning, withoutNumber, newYear])] tokyo =
      (indicator "x" 0).evaluate [("x", [newYear, tokyoMorning, withoutNumber])] tokyo := by
  have hmorning : localDate tokyo tokyoMorning.stamp = .ok (.ofCivil ⟨2024, 1, 2⟩) := by decide
  have hwithout : localDate tokyo withoutNumber.stamp = .ok (.ofCivil ⟨2024, 1, 2⟩) := by decide
  have hnewYear : localDate tokyo newYear.stamp = .ok (.ofCivil ⟨2024, 1, 1⟩) := by decide
  have hdatable : AreDatable tokyo [tokyoMorning, withoutNumber, newYear] := by
    simp [AreDatable, hmorning, hwithout, hnewYear]
  have hheld : AreHeld tokyo [tokyoMorning, withoutNumber, newYear] := by
    simp only [AreHeld, List.forall_mem_cons, hmorning, hwithout, hnewYear, Except.ok.injEq]
    refine ⟨?_, ?_, ?_, List.forall_mem_nil _⟩ <;> rintro _ rfl <;> decide
  have hvalued : AreValued [tokyoMorning, withoutNumber, newYear] := by
    simp [AreValued, tokyoMorning, withoutNumber, newYear]
  have hshort (os : List (Observation Float)) (h : os.length ≤ 16) : AreSettled tokyo os :=
    .inr (.inl (Nat.le_trans (List.length_filterMap_le _ _) h))
  obtain ⟨s, hs, hchosen, hlast⟩ := (evaluate_reordered tokyo).1 _ hdatable hheld hvalued
  refine ⟨⟨s, hs, hchosen, hlast (hshort _ (by decide))⟩, (evaluate_reordered tokyo).2 _ _ _
    (.cons ⟨rfl, ?_, fun d => ?_⟩ .nil) ?_ ?_⟩
  · exact @List.perm_append_comm _ [tokyoMorning, withoutNumber] [newYear]
  · have hne : Date.ofCivil ⟨2024, 1, 1⟩ ≠ Date.ofCivil ⟨2024, 1, 2⟩ := by decide
    by_cases hd : Date.ofCivil ⟨2024, 1, 1⟩ = d
    · simp [onDate, hmorning, hwithout, hnewYear, Except.toOption, ← hd, hne.symm]
    · simp [onDate, List.filter_cons, hmorning, hwithout, hnewYear, Except.toOption, hd]
  · exact List.forall_mem_singleton.mpr (hshort _ (by simp))
  · exact List.forall_mem_singleton.mpr (hshort _ (by simp))

/-- Of many observations that are not in order the last one of a date need not count. -/
theorem not_ofObservations_isLast :
    ¬∀ (context : Context) (os : List (Observation Float)), AreDatable context os →
      AreHeld context os → AreValued os →
      ∃ s, ofObservations context os = .ok s ∧ IsLast context os s := by
  intro h
  obtain ⟨hdatable, hvalued, hpoints, -⟩ := ofObservations_eq_ok_iff.mp ofObservations_crowdAndLater
  have hheld : AreHeld {} (MemoryStore.observationsOf crowdAndLater) := by
    intro o ho d hd
    obtain ⟨x, hx⟩ := hvalued o ho
    exact hpoints (d, x) (List.mem_filterMap.mpr ⟨o, ho, point?_eq_some hd hx⟩)
  obtain ⟨s, hs, hlast⟩ := h {} _ hdatable hheld hvalued
  cases hs.symm.trans ofObservations_crowdAndLater
  have hsixteen := (hlast ⟨1⟩ 16.0).mpr ⟨⟨⟨.ofDate ⟨1⟩, some 16.0⟩, rfl, rfl⟩, by decide⟩
  have hbits := List.mem_map_of_mem (f := fun p : Date × Float => (p.1, p.2.toBits)) hsixteen
  revert hbits
  decide

end Formula

end IndicatorFormula
