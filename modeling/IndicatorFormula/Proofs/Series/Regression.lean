import IndicatorFormula.Proofs.Series.Covariation
import IndicatorFormula.Series.Regression

/-!
# The line of least squares

The squared error of a line exceeds that of the fitted line by two squares, one for the slope and
one for the height at the mean place. So no line has a smaller error. The error of the fitted line
is at most that of the horizontal line through the mean, which makes the explained share a
proportion.
-/

namespace IndicatorFormula.Series

open Arith

/-- The height of a line at a place. -/
def Line.height (line : Line ℚ) (i : ℕ) : ℚ := line.intercept + line.slope * i

/-- The sum of the squared distances of values from a line. -/
def Line.squaredError (line : Line ℚ) (ys : List ℚ) : ℚ :=
  (ys.zipIdx.map fun p => (p.1 - line.height p.2) ^ 2).sum

/-- A line goes through all values. -/
def Line.Meets (line : Line ℚ) (ys : List ℚ) : Prop := ∀ p ∈ ys.zipIdx, p.1 = line.height p.2

variable {line : Line ℚ} {ys : List ℚ}

theorem squaredError_tabulated (line : Line ℚ) (n : ℕ) (f : ℕ → ℚ) :
    line.squaredError (tabulated n f) = ∑ i ∈ Finset.range n, (f i - line.height i) ^ 2 := by
  rw [Line.squaredError, zipIdx_tabulated, map_tabulated, sum_tabulated]

/-- The squared error is not negative. -/
theorem squaredError_nonneg (line : Line ℚ) (ys : List ℚ) : 0 ≤ line.squaredError ys := by
  obtain ⟨n, f, rfl⟩ := exists_eq_tabulated 0 ys
  rw [squaredError_tabulated]
  exact Finset.sum_nonneg fun i _ => sq_nonneg _

/-- The squared error vanishes just for a line through all values. -/
theorem squaredError_eq_zero_iff : line.squaredError ys = 0 ↔ line.Meets ys := by
  obtain ⟨n, f, rfl⟩ := exists_eq_tabulated 0 ys
  rw [squaredError_tabulated, Finset.sum_eq_zero_iff_of_nonneg fun i _ => sq_nonneg _, Line.Meets,
    zipIdx_tabulated]
  simp only [Finset.mem_range, mem_tabulated, sq_eq_zero_iff, sub_eq_zero]
  exact ⟨fun h p ⟨i, hi, hp⟩ => hp ▸ h i hi, fun h i hi => h _ ⟨i, hi, rfl⟩⟩

theorem places_eq_tabulated (n : ℕ) : (places n : List ℚ) = tabulated n fun i => (i : ℚ) := rfl

/-- The squares of the distances from a line add up to its squared error. -/
theorem sumOfSquares_residuals (line : Line ℚ) (ys : List ℚ) :
    sumOfSquares (residuals line ys) = line.squaredError ys := by
  obtain ⟨n, f, rfl⟩ := exists_eq_tabulated 0 ys
  rw [squaredError_tabulated, sumOfSquares, residuals, length_tabulated, places_eq_tabulated,
    zipWith_tabulated, map_tabulated, sum_eq, sum_tabulated]
  exact Finset.sum_congr rfl fun i _ => (pow_two _).symm

/-- The covariation of the first places with themselves, by which a slope is divided. -/
def placeSpread (n : ℕ) : ℚ := covariation (places n) (places n)

/-- Two places differ. -/
theorem placeSpread_pos {n : ℕ} (hn : 2 ≤ n) : 0 < placeSpread n := by
  refine covariation_self_pos fun h => ?_
  have hzero : (0 : ℚ) ∈ (places n : List ℚ) := mem_tabulated.mpr ⟨0, by omega, Nat.cast_zero⟩
  have hone : (1 : ℚ) ∈ (places n : List ℚ) := mem_tabulated.mpr ⟨1, by omega, Nat.cast_one⟩
  exact zero_ne_one (h 0 hzero 1 hone)

theorem fittedLine_slope (ys : List ℚ) :
    (fittedLine ys).slope = covariation (places ys.length) ys / placeSpread ys.length := rfl

theorem fittedLine_intercept (ys : List ℚ) : (fittedLine ys).intercept =
    mean ys - (fittedLine ys).slope * mean (places ys.length) := rfl

/-- What the error of a line is made of: what no line takes away, what its slope adds and what its
height at the mean place adds. -/
theorem squaredError_eq (hn : 2 ≤ ys.length) (line : Line ℚ) :
    line.squaredError ys =
      covariation ys ys - (fittedLine ys).slope ^ 2 * placeSpread ys.length +
        placeSpread ys.length * (line.slope - (fittedLine ys).slope) ^ 2 +
        ys.length * (mean ys - line.intercept - line.slope * mean (places ys.length)) ^ 2 := by
  have hslope : (fittedLine ys).slope * placeSpread ys.length =
      covariation (places ys.length) ys := div_mul_cancel₀ _ (placeSpread_pos hn).ne'
  obtain ⟨n, f, rfl⟩ := exists_eq_tabulated 0 ys
  generalize (fittedLine (tabulated n f)).slope = slope at *
  have hx := sum_sub_center n fun i => (i : ℚ)
  have hy := sum_sub_center n f
  simp only [placeSpread, places_eq_tabulated, length_tabulated, mean_tabulated,
    covariation_tabulated, squaredError_tabulated] at *
  generalize center n (fun i => (i : ℚ)) = x₀ at *
  generalize center n f = y₀ at *
  -- Each distance is taken from the means; the products with a bare distance add up to nothing.
  calc ∑ i ∈ Finset.range n, (f i - line.height i) ^ 2
      = ∑ i ∈ Finset.range n, ((f i - y₀) * (f i - y₀) -
            2 * line.slope * ((i - x₀) * (f i - y₀)) + line.slope ^ 2 * ((i - x₀) * (i - x₀)) +
          (2 * (y₀ - line.intercept - line.slope * x₀) * (f i - y₀) -
            2 * (y₀ - line.intercept - line.slope * x₀) * line.slope * (i - x₀)) +
          (y₀ - line.intercept - line.slope * x₀) ^ 2) := by
        refine Finset.sum_congr rfl fun i _ => ?_
        rw [Line.height]
        ring
    _ = _ := by
        simp only [Finset.sum_add_distrib, Finset.sum_sub_distrib, ← Finset.mul_sum, hx, hy,
          ← hslope, Finset.sum_const, Finset.card_range, nsmul_eq_mul]
        ring

/-- The squared error of the fitted line is what it leaves of the covariation. -/
theorem squaredError_fittedLine (hn : 2 ≤ ys.length) : (fittedLine ys).squaredError ys =
    covariation ys ys - (fittedLine ys).slope ^ 2 * placeSpread ys.length := by
  rw [squaredError_eq hn, fittedLine_intercept]
  ring

/-- No line has a smaller squared error than the fitted one. -/
theorem squaredError_fittedLine_le (hn : 2 ≤ ys.length) (line : Line ℚ) :
    (fittedLine ys).squaredError ys ≤ line.squaredError ys := by
  have hspread := placeSpread_pos hn
  rw [squaredError_eq hn line, squaredError_fittedLine hn]
  have hslope : 0 ≤ placeSpread ys.length * (line.slope - (fittedLine ys).slope) ^ 2 := by
    positivity
  have hheight : 0 ≤ (ys.length : ℚ) *
      (mean ys - line.intercept - line.slope * mean (places ys.length)) ^ 2 := by positivity
  linarith

/-- A horizontal line through the mean leaves all of the covariation. -/
theorem squaredError_fittedLine_le_covariation (hn : 2 ≤ ys.length) :
    (fittedLine ys).squaredError ys ≤ covariation ys ys := by
  have hspread := placeSpread_pos hn
  rw [squaredError_fittedLine hn]
  have hslope : 0 ≤ (fittedLine ys).slope ^ 2 * placeSpread ys.length := by positivity
  linarith

/-- The fitted line has no error just when some line has none. -/
theorem squaredError_fittedLine_eq_zero_iff (hn : 2 ≤ ys.length) :
    (fittedLine ys).squaredError ys = 0 ↔ ∃ line : Line ℚ, line.Meets ys := by
  refine ⟨fun h => ⟨_, squaredError_eq_zero_iff.mp h⟩, fun ⟨line, hline⟩ => ?_⟩
  have hle := squaredError_fittedLine_le hn line
  rw [squaredError_eq_zero_iff.mpr hline] at hle
  exact le_antisymm hle (squaredError_nonneg _ _)

/-- The slope follows an affine map. -/
theorem fittedLine_slope_affine (ys : List ℚ) (c d : ℚ) :
    (fittedLine (ys.map fun y => c * y + d)).slope = c * (fittedLine ys).slope := by
  rw [fittedLine_slope, fittedLine_slope, List.length_map, covariation_comm, covariation_affine,
    covariation_comm, mul_div_assoc]

/-- The squared error of the fitted line is multiplied by the square. -/
theorem squaredError_fittedLine_affine (hn : 2 ≤ ys.length) (c d : ℚ) :
    (fittedLine (ys.map fun y => c * y + d)).squaredError (ys.map fun y => c * y + d) =
      c ^ 2 * (fittedLine ys).squaredError ys := by
  rw [squaredError_fittedLine hn, squaredError_fittedLine (by rwa [List.length_map]),
    covariation_self_affine, fittedLine_slope_affine, List.length_map]
  ring

variable {s : Series ℚ}

/-- The share is what the fitted line takes away of the covariation of the values. -/
theorem explainedShare_eq_ite (hs : 2 ≤ s.length) :
    s.explainedShare = if covariation s.values s.values = 0 then .error .zeroVariance
      else .ok (1 - (fittedLine s.values).squaredError s.values /
        covariation s.values s.values) := by
  have htotal : sumOfSquares (deviations s.values) = covariation s.values s.values := by
    rw [sumOfSquares, covariation, dot, List.zipWith_self]
  rw [explainedShare_eq hs, sumOfSquares_residuals, htotal, one_eq]
  simp only [isZero_iff]

/-- The fitted line is best by least squares, the share that it explains is a proportion, and
neither depends on the unit in which values are measured. -/
theorem fittedLine_leastSquares (hs : 2 ≤ s.length) :
    s.fittedSlope = .ok (fittedLine s.values).slope ∧
    dot (deviations (places s.length)) (deviations (places s.length)) ≠ (0 : ℚ) ∧
    (∀ line : Line ℚ, (fittedLine s.values).squaredError s.values ≤ line.squaredError s.values) ∧
    ((∃ e, s.explainedShare = .error e ∧ e.category = .division) ↔ IsConstant s.values) ∧
    (¬IsConstant s.values → ∃ r, s.explainedShare = .ok r ∧ 0 ≤ r ∧ r ≤ 1 ∧
      (r = 1 ↔ ∃ line : Line ℚ, line.Meets s.values)) ∧
    ∀ c d, (s.rescaled c d).fittedSlope = .ok (c * (fittedLine s.values).slope) ∧
      (c ≠ 0 → (s.rescaled c d).explainedShare = s.explainedShare) := by
  have hn : 2 ≤ s.values.length := by rwa [values, List.length_map]
  have hfitted := squaredError_fittedLine_le_covariation hn
  have hnonneg := squaredError_nonneg (fittedLine s.values) s.values
  refine ⟨fittedSlope_eq hs, (placeSpread_pos hs).ne', squaredError_fittedLine_le hn, ?_, ?_, ?_⟩
  · rw [explainedShare_eq_ite hs, ← covariation_self_eq_zero_iff]
    split
    case isTrue hzero => exact iff_of_true ⟨_, rfl, rfl⟩ hzero
    case isFalse hne =>
      refine iff_of_false ?_ hne
      rintro ⟨e, he, -⟩
      cases he
  · intro hvaried
    have hpos := covariation_self_pos hvaried
    refine ⟨_, (explainedShare_eq_ite hs).trans (if_neg hpos.ne'), ?_, ?_, ?_⟩
    · rw [sub_nonneg]
      exact div_le_one_of_le₀ hfitted hpos.le
    · rw [sub_le_self_iff]
      exact div_nonneg hnonneg hpos.le
    · rw [sub_eq_self, div_eq_zero_iff, or_iff_left hpos.ne',
        squaredError_fittedLine_eq_zero_iff hn]
  · intro c d
    have hrescaled : 2 ≤ (s.rescaled c d).length := by rwa [length_rescaled]
    refine ⟨?_, fun hc => ?_⟩
    · rw [fittedSlope_eq hrescaled, values_rescaled, fittedLine_slope_affine]
    · have hc2 : c ^ 2 ≠ 0 := pow_ne_zero 2 hc
      rw [explainedShare_eq_ite hrescaled, explainedShare_eq_ite hs, values_rescaled,
        covariation_self_affine, squaredError_fittedLine_affine hn, mul_div_mul_left _ _ hc2]
      simp only [mul_eq_zero, hc2, false_or]

/-- Values that go up and down about a rising line. -/
def wavering : Series ℚ := [(⟨1⟩, 1), (⟨2⟩, 3), (⟨3⟩, 2), (⟨4⟩, 5), (⟨5⟩, 4)]

/-- A wavering series: its slope, the share explained, and both after a rescaling. -/
theorem fittedLine_leastSquares_wavering :
    2 ≤ wavering.length ∧ ¬IsConstant wavering.values ∧ wavering.fittedSlope = .ok (4 / 5) ∧
      (∃ r, wavering.explainedShare = .ok r ∧ 0 ≤ r ∧ r ≤ 1) ∧
      (wavering.rescaled (-2) 7).fittedSlope = .ok (-8 / 5) ∧
      (wavering.rescaled (-2) 7).explainedShare = wavering.explainedShare := by
  have hlength : 2 ≤ wavering.length := by decide
  have hvaried : ¬IsConstant wavering.values := fun h =>
    absurd (h 1 (by decide) 3 (by decide)) (by decide)
  have hslope : (fittedLine wavering.values).slope = 4 / 5 := by decide +kernel
  obtain ⟨hfit, -, -, -, hshare, hunit⟩ := fittedLine_leastSquares hlength
  obtain ⟨r, hr, hnonneg, hle, -⟩ := hshare hvaried
  obtain ⟨hscaled, hsame⟩ := hunit (-2) 7
  rw [hslope] at hfit hscaled
  exact ⟨hlength, hvaried, hfit, ⟨r, hr, hnonneg, hle⟩, hscaled.trans (by norm_num),
    hsame (by norm_num)⟩

end IndicatorFormula.Series
