import IndicatorFormula.Proofs.Series.SeasonalAdjustment

/-!
# Recovering a line

A line with a pattern on top that recurs in every cycle and adds up to nothing is taken apart
exactly. The centred average leaves the line and removes the pattern, over two cycles it reaches
every phase, and what remains at a phase is the pattern there, so that no component is shifted.
-/

namespace IndicatorFormula.Series

open Arith

/-- The values of a line with a recurring pattern on top. -/
def lineWithPattern (m : ℕ) (a b : ℚ) (pattern : ℕ → ℚ) (i : ℕ) : ℚ := a + b * i + pattern (i % m)

variable {m n : ℕ} {pattern : ℕ → ℚ} {key : ℕ → ℕ}

/-- About a place that the average reaches it is the value of the line. -/
theorem cycleAverage_lineWithPattern (hm : m ≠ 0) (a b : ℚ)
    (hpattern : ∑ j ∈ Finset.range m, pattern j = 0) {i : ℕ} (hi : m / 2 ≤ i) :
    cycleAverage m (lineWithPattern m a b pattern) (i - m / 2) = a + b * i := by
  have hline : lineWithPattern m a b pattern =
      fun i : ℕ => (b * (i : ℚ) + a) + pattern (i % m) := by
    funext i
    rw [lineWithPattern, add_comm a]
  rw [hline, cycleAverage_add m (fun i : ℕ => b * (i : ℚ) + a) fun i => pattern (i % m),
    cycleAverage_affine hm (fun i : ℕ => (i : ℚ)), cycleAverage_cast hm, cycleAverage_mod hpattern,
    Nat.sub_add_cancel hi, add_zero, add_comm]

/-- What the average takes from the values is the pattern, where it is defined. -/
theorem detrended_lineWithPattern (hm : m ≠ 0) (a b : ℚ)
    (hpattern : ∑ j ∈ Finset.range m, pattern j = 0) (n : ℕ) :
    ∃ trend, centeredAverage m (tabulated n (lineWithPattern m a b pattern)) = .ok trend ∧
      detrended (tabulated n (lineWithPattern m a b pattern)) trend = tabulated n fun i =>
        if m / 2 ≤ i ∧ i + m / 2 < n then some (pattern (i % m)) else none := by
  refine ⟨_, centeredAverage_tabulated hm n _, ?_⟩
  rw [detrended, zipWith_tabulated]
  refine tabulated_congr fun i _ => ?_
  split
  case isTrue hi =>
    rw [cycleAverage_lineWithPattern hm a b hpattern hi.1]
    exact congrArg some (add_sub_cancel_left _ _)
  case isFalse => rfl

/-- The mean of equal values is their value. -/
theorem mean_eq_of_forall {x : ℚ} {xs : List ℚ} (hne : xs ≠ []) (h : ∀ y ∈ xs, y = x) :
    mean xs = x := by
  have hlength : (xs.length : ℚ) ≠ 0 := Nat.cast_ne_zero.mpr (List.length_pos_iff.mpr hne).ne'
  rw [mean_eq, List.sum_eq_card_nsmul xs x h, nsmul_eq_mul, mul_div_cancel_left₀ x hlength]

/-- Over two cycles the average reaches a place of every phase. -/
theorem exists_reached (hn : 2 * m ≤ n) {j : ℕ} (hj : j < m) :
    ∃ i < n, (m / 2 ≤ i ∧ i + m / 2 < n) ∧ i % m = j := by
  by_cases hhalf : m / 2 ≤ j
  · exact ⟨j, by omega, by omega, Nat.mod_eq_of_lt hj⟩
  · refine ⟨j + m, by omega, by omega, ?_⟩
    rw [Nat.add_mod_right, Nat.mod_eq_of_lt hj]

/-- The values of a period in a table are those at its places. -/
theorem mem_valuesOf_tabulated {α : Type} {f : ℕ → Option α} {p : ℕ} {x : α} :
    x ∈ valuesOf (tabulated n key) (tabulated n f) p ↔ ∃ i < n, key i = p ∧ f i = some x := by
  rw [valuesOf, List.zip, zipWith_tabulated]
  simp only [List.mem_filterMap, mem_tabulated, Option.ite_none_right_eq_some]
  constructor
  · rintro ⟨_, ⟨i, hi, rfl⟩, h⟩
    exact ⟨i, hi, h⟩
  · rintro ⟨i, hi, h⟩
    exact ⟨_, ⟨i, hi, rfl⟩, h⟩

/-- The component of a period is at first the value of the pattern at its phase. -/
theorem rawComponent?_phase (hn : 2 * m ≤ n) (hkey : Set.InjOn key {j | j < m}) {xs : List ℚ}
    {trend : List (Option ℚ)} (hdetrended : detrended xs trend = tabulated n fun i =>
      if m / 2 ≤ i ∧ i + m / 2 < n then some (pattern (i % m)) else none)
    {j : ℕ} (hj : j < m) :
    rawComponent? (tabulated n fun i => key (i % m)) xs trend (key j) = some (pattern j) := by
  have hm : 0 < m := by omega
  have hmem (x : ℚ) : x ∈ valuesOf (tabulated n fun i => key (i % m)) (detrended xs trend) (key j) ↔
      ∃ i < n, key (i % m) = key j ∧ (m / 2 ≤ i ∧ i + m / 2 < n) ∧ pattern (i % m) = x := by
    rw [hdetrended, mem_valuesOf_tabulated]
    simp only [Option.ite_none_right_eq_some, Option.some.injEq]
  have hne : valuesOf (tabulated n fun i => key (i % m)) (detrended xs trend) (key j) ≠ [] := by
    obtain ⟨i, hi, hreached, rfl⟩ := exists_reached hn hj
    exact List.ne_nil_of_mem ((hmem _).mpr ⟨i, hi, rfl, hreached, rfl⟩)
  rw [rawComponent?_eq, periodMean?_eq, if_neg hne, Option.some_or]
  refine congrArg some (mean_eq_of_forall hne fun x hx => ?_)
  obtain ⟨i, -, hsame, -, rfl⟩ := (hmem x).mp hx
  exact congrArg pattern (hkey (Nat.mod_lt i hm) hj hsame)

/-- The periods that occur over a cycle or more are those of the phases. -/
theorem sum_phases (hm : m ≠ 0) (hn : m ≤ n) (hkey : Set.InjOn key {j | j < m}) (f : ℕ → ℚ) :
    ∑ p ∈ (tabulated n fun i => key (i % m)).toFinset, f p = ∑ j ∈ Finset.range m, f (key j) := by
  have hphases : (tabulated n fun i => key (i % m)).toFinset = (Finset.range m).image key := by
    ext p
    simp only [List.mem_toFinset, mem_tabulated, Finset.mem_image, Finset.mem_range]
    constructor
    · rintro ⟨i, hi, rfl⟩
      exact ⟨i % m, Nat.mod_lt i (by omega), rfl⟩
    · rintro ⟨j, hj, rfl⟩
      exact ⟨j, by omega, by rw [Nat.mod_eq_of_lt hj]⟩
  rw [hphases]
  exact Finset.sum_image fun i hi j hj h =>
    hkey (Finset.mem_range.mp hi) (Finset.mem_range.mp hj) h

/-- Less the components, the values of the line remain at every place. -/
theorem withoutSeason_lineWithPattern (hm : m ≠ 0) (hn : 2 * m ≤ n) (a b : ℚ)
    (hpattern : ∑ j ∈ Finset.range m, pattern j = 0) (hkey : Set.InjOn key {j | j < m}) :
    withoutSeason m (tabulated n fun i => key (i % m))
        (tabulated n (lineWithPattern m a b pattern)) =
      .ok (tabulated n fun i => some (a + b * i)) := by
  obtain ⟨trend, htrend, hdetrended⟩ := detrended_lineWithPattern hm a b hpattern n
  have hphase (p : ℕ) (hp : p ∈ tabulated n fun i => key (i % m)) : ∃ x,
      rawComponent? (tabulated n fun i => key (i % m)) (tabulated n (lineWithPattern m a b pattern))
        trend p = some x ∧ ∀ j < m, key j = p → x = pattern j := by
    obtain ⟨i, hi, rfl⟩ := mem_tabulated.mp hp
    have hlt : i % m < m := Nat.mod_lt i (by omega)
    refine ⟨_, rawComponent?_phase hn hkey hdetrended hlt, fun j hj hsame => ?_⟩
    exact congrArg pattern (hkey hlt hj hsame.symm)
  choose! raw hraw hvalue using hphase
  have hall (j : ℕ) (hj : j < m) : raw (key j) = pattern j := by
    refine hvalue _ (mem_tabulated.mpr ⟨j, by omega, ?_⟩) j hj rfl
    rw [Nat.mod_eq_of_lt hj]
  have hcenter : mean ((periodsPresent (tabulated n fun i => key (i % m))).map raw) = 0 := by
    rw [mean_eq, sum_periodsPresent, sum_phases hm (by omega) hkey,
      Finset.sum_congr rfl fun j hj => hall j (Finset.mem_range.mp hj), hpattern, zero_div]
  rw [withoutSeason_eq htrend fun p hp => lookup_components hraw hp, hcenter, zipWith_tabulated]
  refine congrArg Except.ok (tabulated_congr fun i _ => congrArg some ?_)
  rw [hall _ (Nat.mod_lt i (by omega)), lineWithPattern, sub_zero, add_sub_cancel_right]

/-- Seasonal adjustment gives back a line under a pattern that recurs in every cycle and adds up to
nothing, at every date of a series over two cycles or more. -/
theorem deseasonalized_recovers_line (hm : 2 ≤ m) (hn : 2 * m ≤ n) (a b : ℚ)
    (hpattern : ∑ j ∈ Finset.range m, pattern j = 0) (hkey : Set.InjOn key {j | j < m}) :
    withoutSeason m (tabulated n fun i => key (i % m))
        (tabulated n (lineWithPattern m a b pattern)) =
      .ok (tabulated n fun i => some (a + b * i)) ∧
    ∀ (s : Series ℚ) (season : Season), Season.infer s.dates = .ok season → season.length = m →
      s.dates.map season.period = tabulated n (fun i => key (i % m)) →
      s.values = tabulated n (lineWithPattern m a b pattern) →
      s.deseasonalized = .ok (s.dates.zip (tabulated n fun i => some (a + b * i))) := by
  have hline := withoutSeason_lineWithPattern (by omega) hn a b hpattern hkey
  refine ⟨hline, fun s season hseason hcycle hperiods hvalues => ?_⟩
  have hlength : s.length = n := by
    rw [← length_tabulated n (lineWithPattern m a b pattern), ← hvalues, values, List.length_map]
  rw [deseasonalized_eq hseason (by omega), hcycle, hperiods, hvalues, hline]
  rfl

/-- Nine quarters in succession. -/
def nineQuarters : Series ℚ :=
  [(.ofCivil ⟨2020, 1, 1⟩, 13), (.ofCivil ⟨2020, 4, 1⟩, 19 / 2), (.ofCivil ⟨2020, 7, 1⟩, 7),
    (.ofCivil ⟨2020, 10, 1⟩, 27 / 2), (.ofCivil ⟨2021, 1, 1⟩, 15), (.ofCivil ⟨2021, 4, 1⟩, 23 / 2),
    (.ofCivil ⟨2021, 7, 1⟩, 9), (.ofCivil ⟨2021, 10, 1⟩, 31 / 2), (.ofCivil ⟨2022, 1, 1⟩, 17)]

/-- The pattern of the nine quarters. -/
def quarterly (j : ℕ) : ℚ := [3, -1, -4, 2].getD j 0

/-- Nine quarters of a line with a pattern: the line is recovered. -/
theorem deseasonalized_recovers_line_quarters :
    2 * 4 ≤ nineQuarters.length ∧ ∑ j ∈ Finset.range 4, quarterly j = 0 ∧
      Set.InjOn Nat.succ {j | j < 4} ∧ Season.infer nineQuarters.dates = .ok .quarters ∧
      nineQuarters.dates.map Season.quarters.period = tabulated 9 (fun i => Nat.succ (i % 4)) ∧
      nineQuarters.deseasonalized = .ok (nineQuarters.dates.zip
        ([10, 21 / 2, 11, 23 / 2, 12, 25 / 2, 13, 27 / 2, 14].map some)) := by
  have hpattern : ∑ j ∈ Finset.range 4, quarterly j = 0 := by decide +kernel
  have hkey : Set.InjOn Nat.succ {j | j < 4} := Nat.succ_injective.injOn
  have hseason : Season.infer nineQuarters.dates = .ok .quarters := by cbv
  have hperiods : nineQuarters.dates.map Season.quarters.period =
      tabulated 9 fun i => Nat.succ (i % 4) := by decide +kernel
  have hvalues : nineQuarters.values = tabulated 9 (lineWithPattern 4 10 (1 / 2) quarterly) := by
    decide +kernel
  have hline : tabulated 9 (fun i => some ((10 : ℚ) + 1 / 2 * i)) =
      [10, 21 / 2, 11, 23 / 2, 12, 25 / 2, 13, 27 / 2, 14].map some := by decide +kernel
  obtain ⟨-, hadjusted⟩ :=
    deseasonalized_recovers_line (n := 9) (by decide) (by decide) 10 (1 / 2) hpattern hkey
  rw [← hline]
  exact ⟨by decide, hpattern, hkey, hseason, hperiods,
    hadjusted nineQuarters .quarters hseason rfl hperiods hvalues⟩

end IndicatorFormula.Series
