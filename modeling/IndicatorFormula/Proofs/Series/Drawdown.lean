import IndicatorFormula.Proofs.Arith
import IndicatorFormula.Series.Drawdown

/-!
# Falls below the running peak

The falls of a row are those of its values below the largest value up to them, where that is not
zero. What comes later changes no peak of what has been, so that a row that goes on keeps its falls
and the deepest of them only grows. It is reached by a value and the peak before it, unless no
value lies below its peak.
-/

namespace IndicatorFormula.Series

open Arith

attribute [local instance (50)] Arith.toAdd Arith.toSub Arith.toMul Arith.toDiv

section Peak

variable {K : Type} [LinearOrder K] {xs ys : List K} {j : ℕ} {x peak : K}

/-- A value of a row with the largest one that has come up to it. -/
structure HasPeak (xs : List K) (j : ℕ) (x peak : K) : Prop where
  /-- The value stands at the place. -/
  value : xs[j]? = some x
  /-- No value up to the place is larger than the peak, which is one of them. -/
  peak : (xs.take (j + 1)).max? = some peak

/-- A value is at most the peak up to it. -/
theorem HasPeak.le (h : HasPeak xs j x peak) : x ≤ peak := by
  refine (List.max?_eq_some_iff.mp h.peak).2 x (List.mem_of_getElem? (i := j) ?_)
  rw [List.getElem?_take_of_lt j.lt_succ_self, h.value]

/-- The peak is reached at the place or before it. -/
theorem HasPeak.exists_le (h : HasPeak xs j x peak) : ∃ i ≤ j, xs[i]? = some peak := by
  obtain ⟨i, hi, hpeak⟩ := List.getElem_of_mem (List.max?_mem h.peak)
  rw [List.length_take] at hi
  refine ⟨i, by omega, ?_⟩
  rw [List.getElem_take] at hpeak
  rw [List.getElem?_eq_getElem (by omega), hpeak]

/-- Later values do not change a peak. -/
theorem HasPeak.append (h : HasPeak xs j x peak) (ys : List K) : HasPeak (xs ++ ys) j x peak := by
  have hj : j < xs.length := (List.getElem?_eq_some_iff.mp h.value).1
  constructor
  · rw [List.getElem?_append_left hj, h.value]
  · rw [List.take_append_of_le_length (by omega), h.peak]

/-- A value that is not below an earlier one is its own peak. -/
theorem HasPeak.eq_of_sorted (h : HasPeak xs j x peak) (hsorted : xs.Pairwise (· ≤ ·)) :
    x = peak := by
  obtain ⟨i, hi, hpeak⟩ := h.exists_le
  obtain ⟨hj, rfl⟩ := List.getElem?_eq_some_iff.mp h.value
  obtain ⟨hi', rfl⟩ := List.getElem?_eq_some_iff.mp hpeak
  refine le_antisymm h.le ?_
  rcases hi.eq_or_lt with rfl | hlt
  · rfl
  · exact List.pairwise_iff_getElem.mp hsorted i j hi' hj hlt

end Peak

section Fall

variable {K : Type} [Field K] [LinearOrder K] [HasRoot K] {xs ys : List K} {x peak fall : K}

/-- The peak of a longer row is the larger one of its peak so far and the new value. -/
theorem max?_concat (before : List K) (x : K) : (before ++ [x]).max? = some
    (match before.max? with
      | none => x
      | some peak => Arith.larger peak x) := by
  cases before with
  | nil => rfl
  | cons y before =>
    rw [List.cons_append, List.max?_cons', List.max?_cons', List.foldl_append]
    exact congrArg some (larger_eq _ _).symm

/-- The falls from a value on, with the peak up to it. -/
theorem falls_cons (before : List K) (x : K) (rest : List K) :
    ∃ peak, (before ++ [x]).max? = some peak ∧ falls before.max? (x :: rest) =
      if peak = 0 then falls (before ++ [x]).max? rest
      else fallFrom peak x :: falls (before ++ [x]).max? rest := by
  refine ⟨_, max?_concat before x, ?_⟩
  rw [max?_concat, falls.eq_def]
  simp only [isZero_iff]
  exact if_neg Bool.false_ne_true

/-- A row has a fall for each of its values, unless the peak of the value is zero. -/
theorem mem_falls_max? (before xs : List K) : fall ∈ falls before.max? xs ↔
    ∃ (j : ℕ) (x peak : K), xs[j]? = some x ∧ (before ++ xs.take (j + 1)).max? = some peak ∧
      peak ≠ 0 ∧ fall = fallFrom peak x := by
  induction xs generalizing before with
  | nil => simp [falls]
  | cons y rest ih =>
    obtain ⟨top, htop, hfalls⟩ := falls_cons before y rest
    have hlater := ih (before ++ [y])
    simp only [List.append_assoc, List.singleton_append] at hlater
    rw [← Nat.or_exists_add_one, hfalls]
    simp only [List.getElem?_cons_succ, List.take_succ_cons, ← hlater, List.getElem?_cons_zero,
      List.take_zero, htop, Option.some.injEq, zero_add]
    by_cases hzero : top = 0
    · rw [if_pos hzero]
      simp [hzero]
    · rw [if_neg hzero]
      simp [hzero]

/-- A fall is that of a value from the peak up to it, if the peak is not zero. -/
theorem mem_falls : fall ∈ falls none xs ↔
    ∃ j x peak, HasPeak xs j x peak ∧ peak ≠ 0 ∧ fall = fallFrom peak x := by
  have hfalls : fall ∈ falls ([] : List K).max? xs ↔ _ := mem_falls_max? [] xs
  simp only [List.nil_append] at hfalls
  exact hfalls.trans ⟨fun ⟨j, x, peak, hx, hpeak, h⟩ => ⟨j, x, peak, ⟨hx, hpeak⟩, h⟩,
    fun ⟨j, x, peak, hx, h⟩ => ⟨j, x, peak, hx.value, hx.peak, h⟩⟩

/-- The largest fall is at least zero. -/
theorem largestFall_eq {fs : List K} {largest : K} (h : fs.max? = some largest) :
    largestFall fs = max largest 0 := by
  cases fs with
  | nil => cases h
  | cons first rest =>
    rw [largestFall, numbers_eq, maximum?_eq, h]
    exact (larger_eq _ _).trans (congrArg (max largest) zero_eq)

/-- The largest of some falls is the least number that neither a fall nor zero exceeds. -/
theorem largestFall_spec (fs : List K) : 0 ≤ largestFall fs ∧ (∀ fall ∈ fs, fall ≤ largestFall fs) ∧
    (largestFall fs = 0 ∨ largestFall fs ∈ fs) := by
  by_cases hne : fs = []
  · subst hne
    have hzero : largestFall ([] : List K) = 0 := zero_eq
    simp [hzero]
  · obtain ⟨largest, hlargest⟩ := Option.isSome_iff_exists.mp (List.isSome_max?_of_ne_nil hne)
    obtain ⟨hmem, hle⟩ := List.max?_eq_some_iff.mp hlargest
    rw [largestFall_eq hlargest]
    refine ⟨le_max_right _ _, fun fall hfall => (hle fall hfall).trans (le_max_left _ _), ?_⟩
    rcases max_choice largest 0 with h | h
    · rw [h]
      exact .inr hmem
    · exact .inl h

/-- There is no fall above zero just when none is positive. -/
theorem largestFall_eq_zero_iff {fs : List K} :
    largestFall fs = 0 ↔ ∀ fall ∈ fs, fall ≤ 0 := by
  obtain ⟨hnonneg, hle, hreached⟩ := largestFall_spec fs
  constructor
  · intro hzero fall hfall
    exact hzero ▸ hle fall hfall
  · intro hall
    rcases hreached with hzero | hmem
    · exact hzero
    · exact le_antisymm (hall _ hmem) hnonneg

/-- The deepest fall is the largest of all falls. -/
theorem deepestFall_eq {s : Series K} (hs : s ≠ []) :
    s.deepestFall = .ok (largestFall (falls none s.values)) := by
  rw [deepestFall, require_of_le (List.length_pos_iff.mpr hs)]
  rfl

/-- A row that goes on keeps its falls. -/
theorem largestFall_le_append (xs ys : List K) :
    largestFall (falls none xs) ≤ largestFall (falls none (xs ++ ys)) := by
  obtain ⟨hnonneg, hle, -⟩ := largestFall_spec (falls none (xs ++ ys))
  obtain ⟨-, -, hzero | hmem⟩ := largestFall_spec (falls none xs)
  · rw [hzero]
    exact hnonneg
  · obtain ⟨j, x, peak, hpeak, h⟩ := mem_falls.mp hmem
    exact hle _ (mem_falls.mpr ⟨j, x, peak, hpeak.append ys, h⟩)

variable [IsStrictOrderedRing K]

/-- A fall is measured by the magnitude of the peak. -/
theorem fallFrom_eq (peak x : K) : fallFrom peak x = (peak - x) / |peak| * 100 := by
  have hhundred : (Arith.hundred : K) = 100 := Nat.cast_ofNat
  rw [fallFrom, Arith.abs_eq, hhundred]

/-- Only the peak itself has no fall. -/
theorem fallFrom_eq_zero_iff (hpeak : peak ≠ 0) : fallFrom peak x = 0 ↔ x = peak := by
  have hhundred : (100 : K) ≠ 0 := by norm_num
  rw [fallFrom_eq, mul_eq_zero, or_iff_left hhundred, div_eq_zero_iff,
    or_iff_left (abs_ne_zero.mpr hpeak), sub_eq_zero, eq_comm]

/-- A fall from a peak is not negative. -/
theorem fallFrom_nonneg (h : x ≤ peak) : 0 ≤ fallFrom peak x := by
  rw [fallFrom_eq]
  exact mul_nonneg (div_nonneg (sub_nonneg.mpr h) (abs_nonneg peak)) (by norm_num)

/-- A row never falls just when each of its values is its own peak, unless that is zero. -/
theorem neverFalls_iff : (∀ fall ∈ falls none xs, fall ≤ 0) ↔
    ∀ j x peak, HasPeak xs j x peak → peak ≠ 0 → x = peak := by
  constructor
  · intro hall j x peak hpeak hne
    have hfall := hall _ (mem_falls.mpr ⟨j, x, peak, hpeak, hne, rfl⟩)
    exact (fallFrom_eq_zero_iff hne).mp (le_antisymm hfall (fallFrom_nonneg hpeak.le))
  · intro hall fall hfall
    obtain ⟨j, x, peak, hpeak, hne, rfl⟩ := mem_falls.mp hfall
    exact ((fallFrom_eq_zero_iff hne).mpr (hall j x peak hpeak hne)).le

/-- The deepest fall of a series is no less than zero and only grows as the series goes on. It is
zero just when each value is its own peak, unless that is zero, as in every series that does not
decrease. Otherwise it is the fall of some value from an earlier one that was the peak. -/
theorem deepestFall_grows {s : Series ℚ} (hs : s ≠ []) (t : Series ℚ) :
    ∃ fall, s.deepestFall = .ok fall ∧ 0 ≤ fall ∧
      (∃ later, (s ++ t).deepestFall = .ok later ∧ fall ≤ later) ∧
      (fall = 0 ↔ ∀ j x peak, HasPeak s.values j x peak → peak ≠ 0 → x = peak) ∧
      (s.values.Pairwise (· ≤ ·) → fall = 0) ∧
      (0 < fall → ∃ i j x peak, i ≤ j ∧ s.values[i]? = some peak ∧ HasPeak s.values j x peak ∧
        peak ≠ 0 ∧ x < peak ∧ fall = (peak - x) / |peak| * 100) := by
  have hlonger : s ++ t ≠ [] := by simp [hs]
  have hzero : largestFall (falls none s.values) = 0 ↔ _ :=
    largestFall_eq_zero_iff.trans neverFalls_iff
  refine ⟨_, deepestFall_eq hs, (largestFall_spec _).1, ⟨_, deepestFall_eq hlonger, ?_⟩, hzero,
    fun hsorted => ?_, fun hpos => ?_⟩
  · have hvalues : (s ++ t).values = s.values ++ t.values := List.map_append
    rw [hvalues]
    exact largestFall_le_append _ _
  · exact hzero.mpr fun j x peak hpeak _ => hpeak.eq_of_sorted hsorted
  · have hmem := (largestFall_spec _).2.2.resolve_left hpos.ne'
    obtain ⟨j, x, peak, hpeak, hne, hfall⟩ := mem_falls.mp hmem
    obtain ⟨i, hi, hreached⟩ := hpeak.exists_le
    refine ⟨i, j, x, peak, hi, hreached, hpeak, hne, lt_of_le_of_ne hpeak.le ?_, ?_⟩
    · rintro rfl
      exact hpos.ne' (hfall.trans ((fallFrom_eq_zero_iff hne).mpr rfl))
    · rw [hfall, fallFrom_eq]

/-- Values below zero that fall, and a fall from a later peak that is not as deep. -/
def sunken : Series ℚ := [(⟨1⟩, -2), (⟨2⟩, -3), (⟨3⟩, 0), (⟨4⟩, -1), (⟨5⟩, 5), (⟨6⟩, 3)]

/-- Negative values: a fall of 50, which a later value only deepens. -/
theorem deepestFall_grows_sunken :
    sunken ≠ [] ∧ sunken.deepestFall = .ok 50 ∧
      (∃ later, (sunken ++ ([(⟨7⟩, -5)] : Series ℚ)).deepestFall = .ok later ∧ 50 ≤ later) ∧
      ∃ i j x peak, i ≤ j ∧ sunken.values[i]? = some peak ∧ HasPeak sunken.values j x peak ∧
        50 = (peak - x) / |peak| * 100 := by
  have hne : sunken ≠ [] := List.cons_ne_nil _ _
  have hfifty : sunken.deepestFall = .ok 50 := by decide +kernel
  obtain ⟨fall, hfall, -, hlater, -, -, hreached⟩ :=
    deepestFall_grows hne ([(⟨7⟩, -5)] : Series ℚ)
  obtain rfl : (50 : ℚ) = fall := Except.ok.inj (hfifty.symm.trans hfall)
  obtain ⟨i, j, x, peak, hi, hpeak, hx, -, -, hvalue⟩ := hreached (by norm_num)
  exact ⟨hne, hfall, hlater, i, j, x, peak, hi, hpeak, hx, hvalue⟩

end Fall

end IndicatorFormula.Series
