import IndicatorFormula.Proofs.Series.CenteredAverage
import IndicatorFormula.Proofs.Series.Covariation
import IndicatorFormula.Series.SeasonalAdjustment

/-!
# Seasonal adjustment in exact arithmetic

Every period that occurs has a component, taken from the distances to the trend or, where the
moving average does not reach, from the distances to the mean. Both are linear in the values and
blind to a constant, so that the adjustment commutes with a change of unit. The components add up to
zero, whence nothing is added to the total if every period occurs equally often.
-/

namespace IndicatorFormula.Series

open Arith

section Adjusted

/-- Values taken by period stand at the dates that they were taken from. -/
theorem zip_zipWith_values {α β : Type} (s : Series α) (period : Date → ℕ) (f : ℕ → α → β) :
    s.dates.zip (List.zipWith f (s.dates.map period) s.values) =
      s.map fun p => (p.1, f (period p.1) p.2) := by
  simp only [dates, values, List.zipWith_map, List.zipWith_self, List.zip_map', List.map_map]
  rfl

variable {α : Type} [Arith α]

/-- A value less the component of its period. -/
def lessComponent (components : List (ℕ × Option α)) (p : ℕ) (x : α) : Option α :=
  (components.lookup p).join.map fun c => x - c

/-- The values less the components of their periods, for a cycle of a given length. -/
def withoutSeason (cycle : ℕ) (periods : List ℕ) (xs : List α) :
    Except DataError (List (Option α)) :=
  (centeredAverage cycle xs).map fun trend =>
    List.zipWith (lessComponent (components periods xs trend)) periods xs

/-- A series is adjusted for the season that its dates show. -/
theorem deseasonalized_eq {s : Series α} {season : Season}
    (hseason : Season.infer s.dates = .ok season) (hcycle : season.length ≤ s.length) :
    s.deseasonalized = (withoutSeason season.length (s.dates.map season.period) s.values).map
      fun ys => s.dates.zip ys := by
  rw [deseasonalized, hseason, withoutSeason]
  simp only [bind, Except.bind, if_neg hcycle.not_gt]
  cases centeredAverage season.length s.values with
  | error e => rfl
  | ok trend =>
    let byPeriod := components (s.dates.map season.period) s.values trend
    exact congrArg Except.ok (zip_zipWith_values s season.period (lessComponent byPeriod)).symm

end Adjusted

theorem nodup_eraseDups (xs : List ℕ) : xs.eraseDups.Nodup := by
  induction h : xs.length using Nat.strong_induction_on generalizing xs with
  | _ n ih =>
    cases xs with
    | nil => exact List.nodup_nil
    | cons x xs =>
      rw [List.eraseDups_cons, List.nodup_cons]
      refine ⟨fun hx => ?_, ih _ ?_ _ rfl⟩
      · simp [List.mem_eraseDups] at hx
      · rw [← h, List.length_cons]
        exact Nat.lt_succ_of_le (List.length_filter_le _ _)

theorem mem_periodsPresent {periods : List ℕ} {p : ℕ} :
    p ∈ periodsPresent periods ↔ p ∈ periods := by
  rw [periodsPresent, (List.mergeSort_perm _ _).mem_iff, List.mem_eraseDups]

/-- A total over the periods that occur counts each of them once. -/
theorem sum_periodsPresent {M : Type} [AddCommMonoid M] (periods : List ℕ) (f : ℕ → M) :
    ((periodsPresent periods).map f).sum = ∑ p ∈ periods.toFinset, f p := by
  have hnodup : (periodsPresent periods).Nodup :=
    (List.mergeSort_perm _ _).nodup_iff.mpr (nodup_eraseDups periods)
  rw [← List.sum_toFinset f hnodup]
  refine Finset.sum_congr ?_ fun _ _ => rfl
  ext p
  rw [List.mem_toFinset, List.mem_toFinset, mem_periodsPresent]

/-- The defined values that fall on a period. -/
def valuesOf {α : Type} (periods : List ℕ) (zs : List (Option α)) (p : ℕ) : List α :=
  (periods.zip zs).filterMap fun q => if q.1 = p then q.2 else none

/-- The values of a period are mapped with the series. -/
theorem valuesOf_map {α : Type} (f : α → α) (periods : List ℕ) (zs : List (Option α)) (p : ℕ) :
    valuesOf periods (zs.map (Option.map f)) p = (valuesOf periods zs p).map f := by
  rw [valuesOf, valuesOf, List.zip_map_right, List.filterMap_map, List.map_filterMap]
  refine List.filterMap_congr fun ⟨q, z⟩ _ => ?_
  change (if q = p then Option.map f z else none) = Option.map f (if q = p then z else none)
  split <;> rfl

/-- The distances of values from a trend, as far as it is defined. -/
def detrended {α : Type} [Arith α] (xs : List α) (trend : List (Option α)) : List (Option α) :=
  List.zipWith (fun x t => t.map (x - ·)) xs trend

variable {periods : List ℕ} {xs : List ℚ} {trend : List (Option ℚ)} {p : ℕ}

/-- A period has a mean just when it has a value. -/
theorem periodMean?_eq (periods : List ℕ) (zs : List (Option ℚ)) (p : ℕ) :
    periodMean? periods zs p =
      if valuesOf periods zs p = [] then none else some (mean (valuesOf periods zs p)) := by
  rw [periodMean?, numbers_eq, ← valuesOf]
  cases valuesOf periods zs p with
  | nil => rfl
  | cons x xs => rfl

theorem mean_map_mul (a : ℚ) (xs : List ℚ) : mean (xs.map fun x => a * x) = a * mean xs := by
  rw [mean_eq, mean_eq, List.length_map, List.sum_map_mul_left, List.map_id', mul_div_assoc]

/-- The mean of a period is homogeneous. -/
theorem periodMean?_map_mul (a : ℚ) (periods : List ℕ) (zs : List (Option ℚ)) (p : ℕ) :
    periodMean? periods (zs.map (Option.map fun x => a * x)) p =
      (periodMean? periods zs p).map fun x => a * x := by
  rw [periodMean?_eq, periodMean?_eq, valuesOf_map, mean_map_mul]
  simp only [List.map_eq_nil_iff]
  split <;> rfl

/-- A component is the mean distance from the trend, or else that from the mean. -/
theorem rawComponent?_eq (periods : List ℕ) (xs : List ℚ) (trend : List (Option ℚ)) (p : ℕ) :
    rawComponent? periods xs trend p = (periodMean? periods (detrended xs trend) p).or
      (periodMean? periods ((deviations xs).map some) p) := by
  have hnumber : (number? : ℚ → Option ℚ) = some := rfl
  rw [rawComponent?, hnumber, Option.bind_fun_some, Option.bind_fun_some, detrended]

/-- Removing the trend leaves only the factor of an affine map. -/
theorem detrended_affine (xs : List ℚ) (trend : List (Option ℚ)) (a b : ℚ) :
    detrended (xs.map fun x => a * x + b) (trend.map (Option.map fun x => a * x + b)) =
      (detrended xs trend).map (Option.map fun x => a * x) := by
  rw [detrended, detrended, List.zipWith_map, List.map_zipWith]
  congr 1
  funext x t
  cases t with
  | none => rfl
  | some y =>
    refine congrArg some ?_
    change a * x + b - (a * y + b) = a * (x - y)
    ring

/-- In another unit the components are scaled alike, wherever they are taken from. -/
theorem rawComponent?_affine (periods : List ℕ) (xs : List ℚ) (trend : List (Option ℚ)) (p : ℕ)
    (a b : ℚ) :
    rawComponent? periods (xs.map fun x => a * x + b)
        (trend.map (Option.map fun x => a * x + b)) p =
      (rawComponent? periods xs trend p).map fun x => a * x := by
  have hdeviations : (deviations (xs.map fun x => a * x + b)).map some =
      ((deviations xs).map some).map (Option.map fun x => a * x) := by
    rw [deviations_affine, List.map_map, List.map_map]
    rfl
  rw [rawComponent?_eq, rawComponent?_eq, detrended_affine, hdeviations, periodMean?_map_mul,
    periodMean?_map_mul, Option.map_or]

/-- A period that occurs has a component. -/
theorem exists_rawComponent? (hlength : periods.length = xs.length) (hp : p ∈ periods)
    (trend : List (Option ℚ)) : ∃ c, rawComponent? periods xs trend p = some c := by
  obtain ⟨i, hi, rfl⟩ := List.getElem_of_mem hp
  have hdev : i < (deviations xs).length := by
    rw [deviations, List.length_map]
    omega
  have hmem : (deviations xs)[i] ∈ valuesOf periods ((deviations xs).map some) periods[i] := by
    refine List.mem_filterMap.mpr ⟨(periods[i], some (deviations xs)[i]), ?_, if_pos rfl⟩
    refine List.mem_iff_getElem.mpr ⟨i, by simp; omega, by simp⟩
  rw [rawComponent?_eq, periodMean?_eq periods ((deviations xs).map some),
    if_neg (List.ne_nil_of_mem hmem)]
  cases periodMean? periods (detrended xs trend) periods[i] with
  | none => exact ⟨_, rfl⟩
  | some c => exact ⟨c, rfl⟩

/-- The deviations add up to zero. -/
theorem sum_deviations (xs : List ℚ) : (deviations xs).sum = 0 := by
  obtain ⟨n, f, rfl⟩ := exists_eq_tabulated 0 xs
  rw [deviations_tabulated, sum_tabulated, sum_sub_center]

theorem lookup_map_snd {γ δ : Type} (f : γ → δ) (p : ℕ) (cs : List (ℕ × γ)) :
    (cs.map fun c => (c.1, f c.2)).lookup p = (cs.lookup p).map f := by
  induction cs with
  | nil => rfl
  | cons c cs ih =>
    rw [List.map_cons, List.lookup_cons, List.lookup_cons, ih]
    split <;> rfl

/-- A component is taken relative to the mean of those of all periods that occur. -/
theorem lookup_components {raw : ℕ → ℚ}
    (hraw : ∀ p ∈ periods, rawComponent? periods xs trend p = some (raw p)) (hp : p ∈ periods) :
    (components periods xs trend).lookup p =
      some (some (raw p - mean ((periodsPresent periods).map raw))) := by
  have hpresent : (periodsPresent periods).map (fun p => (p, rawComponent? periods xs trend p)) =
      (periodsPresent periods).map fun p => (p, some (raw p)) :=
    List.map_congr_left fun p hp => by rw [hraw p (mem_periodsPresent.mp hp)]
  have hvalues : ((periodsPresent periods).map fun p => (p, some (raw p))).filterMap Prod.snd =
      (periodsPresent periods).map raw := by
    rw [List.filterMap_map]
    exact congrFun List.filterMap_eq_map _
  rw [components, hpresent, normalized, hvalues, List.map_map]
  exact List.lookup_graph _ (mem_periodsPresent.mpr hp)

/-- Every period that occurs has a component, and together the components vanish. -/
theorem exists_components (hlength : periods.length = xs.length) (trend : List (Option ℚ)) :
    ∃ c : ℕ → ℚ, (∀ p ∈ periods, (components periods xs trend).lookup p = some (some (c p))) ∧
      ∑ p ∈ periods.toFinset, c p = 0 := by
  choose! raw hraw using fun p (hp : p ∈ periods) => exists_rawComponent? hlength hp trend
  refine ⟨_, fun p hp => lookup_components hraw hp, ?_⟩
  rw [← sum_periodsPresent, ← sum_deviations ((periodsPresent periods).map raw), deviations,
    List.map_map]
  rfl

/-- Normalizing components is homogeneous. -/
theorem normalized_map_mul (a : ℚ) (cs : List (ℕ × Option ℚ)) :
    normalized (cs.map fun c => (c.1, c.2.map fun x => a * x)) =
      (normalized cs).map fun c => (c.1, c.2.map fun x => a * x) := by
  have hvalues : (cs.map fun c => (c.1, c.2.map fun x => a * x)).filterMap Prod.snd =
      (cs.filterMap Prod.snd).map fun x => a * x := by
    rw [List.filterMap_map, List.map_filterMap]
    rfl
  rw [normalized, normalized, hvalues, mean_map_mul, List.map_map, List.map_map]
  refine List.map_congr_left fun ⟨p, x⟩ _ => congrArg (Prod.mk p) ?_
  cases x with
  | none => rfl
  | some x => exact congrArg some (mul_sub a x _).symm

/-- In another unit the components are scaled, and a constant does not matter. -/
theorem components_affine (periods : List ℕ) (xs : List ℚ) (trend : List (Option ℚ)) (a b : ℚ) :
    components periods (xs.map fun x => a * x + b) (trend.map (Option.map fun x => a * x + b)) =
      (components periods xs trend).map fun c => (c.1, c.2.map fun x => a * x) := by
  simp only [components, rawComponent?_affine]
  rw [← normalized_map_mul, List.map_map]
  rfl

/-- Where the components are known, so are the adjusted values. -/
theorem withoutSeason_eq {cycle : ℕ} {c : ℕ → ℚ} (htrend : centeredAverage cycle xs = .ok trend)
    (hc : ∀ p ∈ periods, (components periods xs trend).lookup p = some (some (c p))) :
    withoutSeason cycle periods xs = .ok (List.zipWith (fun p x => some (x - c p)) periods xs) := by
  rw [withoutSeason, htrend]
  refine congrArg Except.ok ?_
  change List.zipWith _ periods xs = _
  rw [← List.map_uncurry_zip_eq_zipWith, ← List.map_uncurry_zip_eq_zipWith]
  refine List.map_congr_left fun ⟨p, x⟩ hmem => ?_
  rw [Function.uncurry_apply_pair, Function.uncurry_apply_pair, lessComponent,
    hc p (List.of_mem_zip hmem).1]
  rfl

/-- The series without its season follows an affine map. -/
theorem withoutSeason_affine {cycle : ℕ} (hcycle : cycle ≠ 0) (periods : List ℕ) (xs : List ℚ)
    (a b : ℚ) :
    withoutSeason cycle periods (xs.map fun x => a * x + b) =
      (withoutSeason cycle periods xs).map (List.map (Option.map fun x => a * x + b)) := by
  obtain ⟨trend, htrend⟩ := exists_centeredAverage hcycle xs
  rw [withoutSeason, withoutSeason, htrend, centeredAverage_affine hcycle htrend]
  refine congrArg Except.ok ?_
  simp only [components_affine, List.zipWith_map_right, List.map_zipWith]
  congr 1
  funext p x
  rw [lessComponent, lessComponent, lookup_map_snd]
  rcases (components periods xs trend).lookup p with _ | _ | c
  · rfl
  · rfl
  · refine congrArg some ?_
    change a * x + b - a * c = a * (x - c) + b
    ring

/-- If every period occurs equally often, what is taken away vanishes in total. -/
theorem sum_map_eq_zero {c : ℕ → ℚ}
    (hcount : ∀ p ∈ periods, ∀ q ∈ periods, periods.count p = periods.count q)
    (hsum : ∑ p ∈ periods.toFinset, c p = 0) : (periods.map c).sum = 0 := by
  cases periods with
  | nil => rfl
  | cons p ps =>
    rw [Finset.sum_list_map_count]
    have hsame : ∀ q ∈ (p :: ps).toFinset, (p :: ps).count q • c q = (p :: ps).count p • c q :=
      fun q hq => by rw [hcount q (List.mem_toFinset.mp hq) p List.mem_cons_self]
    rw [Finset.sum_congr rfl hsame, ← Finset.smul_sum, hsum, smul_zero]

theorem length_ne_zero (season : Season) : season.length ≠ 0 := by cases season <;> decide

/-- A series of at least one cycle is adjusted at every date by the component of its period. The
components vanish in total, the adjustment commutes with a change of unit, and the total of the
values is kept if every period occurs equally often. -/
theorem deseasonalized_affine {s : Series ℚ} {season : Season}
    (hseason : Season.infer s.dates = .ok season) (hcycle : season.length ≤ s.length) :
    ∃ (trend : List (Option ℚ)) (c : ℕ → ℚ),
      centeredAverage season.length s.values = .ok trend ∧
      (∀ p ∈ s.dates.map season.period,
        (components (s.dates.map season.period) s.values trend).lookup p = some (some (c p))) ∧
      ∑ p ∈ (s.dates.map season.period).toFinset, c p = 0 ∧
      s.deseasonalized = .ok (s.map fun q => (q.1, some (q.2 - c (season.period q.1)))) ∧
      (∀ a b, (s.rescaled a b).deseasonalized =
        s.deseasonalized.map fun t => t.map fun q => (q.1, q.2.map fun x => a * x + b)) ∧
      ((∀ p ∈ s.dates.map season.period, ∀ q ∈ s.dates.map season.period,
          (s.dates.map season.period).count p = (s.dates.map season.period).count q) →
        (s.map fun q => q.2 - c (season.period q.1)).sum = s.values.sum) := by
  have hperiods : (s.dates.map season.period).length = s.values.length := by
    simp [dates, values]
  obtain ⟨trend, htrend⟩ := exists_centeredAverage (length_ne_zero season) s.values
  obtain ⟨c, hc, hsum⟩ := exists_components hperiods trend
  refine ⟨trend, c, htrend, hc, hsum, ?_, fun a b => ?_, fun hcount => ?_⟩
  · rw [deseasonalized_eq hseason hcycle, withoutSeason_eq htrend hc]
    exact congrArg Except.ok (zip_zipWith_values s season.period fun p x => some (x - c p))
  · have hdates : (s.rescaled a b).dates = s.dates := by simp [rescaled, dates]
    rw [deseasonalized_eq hseason hcycle,
      deseasonalized_eq (s := s.rescaled a b) (hdates ▸ hseason) (by rwa [length_rescaled]),
      values_rescaled, hdates, withoutSeason_affine (length_ne_zero season)]
    cases withoutSeason season.length (s.dates.map season.period) s.values with
    | error e => rfl
    | ok ys => exact congrArg Except.ok List.zip_map_right
  · have hrow : (s.map fun q => q.2 - c (season.period q.1)).sum =
        s.values.sum - ((s.dates.map season.period).map c).sum := by
      refine eq_sub_of_add_eq ?_
      rw [dates, List.map_map, List.map_map, ← List.sum_map_add]
      exact congrArg List.sum (List.map_congr_left fun q _ => sub_add_cancel _ _)
    rw [hrow, sum_map_eq_zero hcount hsum, sub_zero]

/-- Quarters with a gap of half a year: the average over a cycle reaches the later two periods of
the year only, although all of them occur equally often. -/
def gapQuarters : Series ℚ :=
  [(.ofCivil ⟨2020, 1, 1⟩, 1), (.ofCivil ⟨2020, 4, 1⟩, 5), (.ofCivil ⟨2020, 7, 1⟩, 2),
    (.ofCivil ⟨2020, 10, 1⟩, 7), (.ofCivil ⟨2021, 7, 1⟩, 4), (.ofCivil ⟨2021, 10, 1⟩, 3),
    (.ofCivil ⟨2022, 1, 1⟩, 6), (.ofCivil ⟨2022, 4, 1⟩, 8)]

/-- Quarters with a gap: the components, the adjusted series, its total and a rescaling. -/
theorem deseasonalized_affine_gap :
    Season.infer gapQuarters.dates = .ok .quarters ∧
      Season.quarters.length ≤ gapQuarters.length ∧
      ∃ c : ℕ → ℚ, c 1 + c 2 + c 3 + c 4 = 0 ∧
        gapQuarters.deseasonalized =
          .ok (gapQuarters.map fun q => (q.1, some (q.2 - c q.1.quarter))) ∧
        (gapQuarters.map fun q => q.2 - c q.1.quarter).sum = gapQuarters.values.sum ∧
        (gapQuarters.rescaled (-2) 3).deseasonalized = gapQuarters.deseasonalized.map
          fun t => t.map fun q => (q.1, q.2.map fun x => -2 * x + 3) := by
  have hseason : Season.infer gapQuarters.dates = .ok .quarters := by cbv
  have hcycle : Season.quarters.length ≤ gapQuarters.length := by decide
  have hperiods : gapQuarters.dates.map Season.quarters.period = [1, 2, 3, 4, 3, 4, 1, 2] := by
    decide +kernel
  obtain ⟨trend, c, -, -, hsum, hadjusted, haffine, htotal⟩ := deseasonalized_affine hseason hcycle
  rw [hperiods] at hsum htotal
  have hpresent : [1, 2, 3, 4, 3, 4, 1, 2].toFinset = {1, 2, 3, 4} := by decide
  rw [hpresent] at hsum
  refine ⟨hseason, hcycle, c, ?_, hadjusted, htotal (by decide), haffine (-2) 3⟩
  simpa [add_assoc] using hsum

end IndicatorFormula.Series
