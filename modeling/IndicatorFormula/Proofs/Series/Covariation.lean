import IndicatorFormula.Proofs.Arith
import IndicatorFormula.Series.Basic

/-!
# Covariation

The covariation of two rows is the sum of the products of their distances from the means. It is
linear in either row, blind to a constant that is added, and by Cauchy and Schwarz its square is at
most the product of the covariations of the rows with themselves, which vanish for constant rows
alone.
-/

namespace IndicatorFormula

namespace Series

/-- A series with each value scaled and shifted. -/
def rescaled {α : Type} [Arith α] (c d : α) (s : Series α) : Series α :=
  s.map fun p => (p.1, c * p.2 + d)

theorem values_rescaled {α : Type} [Arith α] (c d : α) (s : Series α) :
    (s.rescaled c d).values = s.values.map fun x => c * x + d := by
  simp [rescaled, values]

theorem length_rescaled {α : Type} [Arith α] (c d : α) (s : Series α) :
    (s.rescaled c d).length = s.length := List.length_map _

end Series

namespace Arith

/-- The sum of the products of the distances of two rows from their means. -/
def covariation {α : Type} [Arith α] (xs ys : List α) : α := dot (deviations xs) (deviations ys)

attribute [local instance (50)] Arith.toAdd Arith.toSub Arith.toMul Arith.toDiv

variable {K : Type} [Field K]

/-- The mean of the values of a function. -/
def center (n : ℕ) (f : ℕ → K) : K := (∑ i ∈ Finset.range n, f i) / n

/-- The centre follows an affine map. -/
theorem center_affine [CharZero K] {n : ℕ} (hn : n ≠ 0) (f : ℕ → K) (c d : K) :
    center n (fun i => c * f i + d) = c * center n f + d := by
  have hcast : (n : K) ≠ 0 := Nat.cast_ne_zero.mpr hn
  rw [center, center, Finset.sum_add_distrib, ← Finset.mul_sum, Finset.sum_const,
    Finset.card_range, nsmul_eq_mul]
  field_simp

/-- The distances from the mean add up to nothing. -/
theorem sum_sub_center [CharZero K] (n : ℕ) (f : ℕ → K) :
    ∑ i ∈ Finset.range n, (f i - center n f) = 0 := by
  rcases Nat.eq_zero_or_pos n with rfl | hn
  · rfl
  · have hcast : (n : K) ≠ 0 := Nat.cast_ne_zero.mpr hn.ne'
    rw [Finset.sum_sub_distrib, Finset.sum_const, Finset.card_range, nsmul_eq_mul, center]
    field_simp
    ring

variable [LinearOrder K] [HasRoot K]

theorem mean_tabulated (n : ℕ) (f : ℕ → K) : mean (tabulated n f) = center n f := by
  rw [mean_eq, sum_tabulated, length_tabulated, center]

theorem deviations_tabulated (n : ℕ) (f : ℕ → K) :
    deviations (tabulated n f) = tabulated n fun i => f i - center n f := by
  rw [deviations, mean_tabulated, map_tabulated]

theorem covariation_tabulated (n : ℕ) (f g : ℕ → K) :
    covariation (tabulated n f) (tabulated n g) =
      ∑ i ∈ Finset.range n, (f i - center n f) * (g i - center n g) := by
  rw [covariation, deviations_tabulated, deviations_tabulated, dot_tabulated]

/-- Covariation is symmetric. -/
theorem covariation_comm (xs ys : List K) : covariation xs ys = covariation ys xs := by
  rw [covariation, covariation, dot, dot, List.zipWith_comm]
  congr 2
  funext x y
  exact mul_comm y x

variable [IsStrictOrderedRing K]

/-- A row that is scaled and shifted has its distances from the mean scaled. -/
theorem deviations_affine (xs : List K) (c d : K) :
    deviations (xs.map fun x => c * x + d) = (deviations xs).map fun x => c * x := by
  obtain ⟨n, f, rfl⟩ := exists_eq_tabulated 0 xs
  rw [map_tabulated, deviations_tabulated, deviations_tabulated, map_tabulated]
  refine tabulated_congr fun i hi => ?_
  rw [center_affine (by omega)]
  ring

/-- Covariation is linear and does not see a constant. -/
theorem covariation_affine (xs ys : List K) (c d : K) :
    covariation (xs.map fun x => c * x + d) ys = c * covariation xs ys := by
  rw [covariation, covariation, deviations_affine, dot, dot, sum_eq, sum_eq]
  generalize deviations xs = dx
  generalize deviations ys = dy
  calc (List.zipWith (fun x y => x * y) (dx.map fun x => c * x) dy).sum
      = ((List.zipWith (fun x y => x * y) dx dy).map fun z => c * z).sum := by
        simp only [List.zipWith_map_left, List.map_zipWith, mul_assoc]
    _ = c * (List.zipWith (fun x y => x * y) dx dy).sum := by
        rw [List.sum_map_mul_left, List.map_id']

/-- Rescaling multiplies the covariation of a list with itself by the square. -/
theorem covariation_self_affine (xs : List K) (c d : K) :
    covariation (xs.map fun x => c * x + d) (xs.map fun x => c * x + d) =
      c ^ 2 * covariation xs xs := by
  rw [covariation_affine, covariation_comm, covariation_affine]
  ring

/-- The covariation of a list with itself is not negative. -/
theorem covariation_self_nonneg (xs : List K) : 0 ≤ covariation xs xs := by
  obtain ⟨n, f, rfl⟩ := exists_eq_tabulated 0 xs
  rw [covariation_tabulated]
  exact Finset.sum_nonneg fun i _ => mul_self_nonneg _

/-- The covariation of a list with itself vanishes just for equal values. -/
theorem covariation_self_eq_zero_iff {xs : List K} : covariation xs xs = 0 ↔ IsConstant xs := by
  obtain ⟨n, f, rfl⟩ := exists_eq_tabulated 0 xs
  rw [covariation_tabulated, Finset.sum_eq_zero_iff_of_nonneg fun i _ => mul_self_nonneg _]
  simp only [Finset.mem_range, mul_self_eq_zero, sub_eq_zero]
  constructor
  · intro h x hx y hy
    obtain ⟨i, hi, rfl⟩ := mem_tabulated.mp hx
    obtain ⟨j, hj, rfl⟩ := mem_tabulated.mp hy
    rw [h i hi, h j hj]
  · intro h i hi
    have hall : ∀ j ∈ Finset.range n, f j = f i := fun j hj =>
      h _ (mem_tabulated.mpr ⟨j, Finset.mem_range.mp hj, rfl⟩) _ (mem_tabulated.mpr ⟨i, hi, rfl⟩)
    have hcast : (n : K) ≠ 0 := Nat.cast_ne_zero.mpr (by omega)
    rw [center, Finset.sum_congr rfl hall, Finset.sum_const, Finset.card_range, nsmul_eq_mul]
    field_simp

theorem covariation_self_pos {xs : List K} (h : ¬IsConstant xs) : 0 < covariation xs xs :=
  (covariation_self_nonneg xs).lt_of_ne' (mt covariation_self_eq_zero_iff.mp h)

/-- The square of a covariation is at most the product of those of the rows with themselves. -/
theorem covariation_sq_le {xs ys : List K} (h : xs.length = ys.length) :
    covariation xs ys ^ 2 ≤ covariation xs xs * covariation ys ys := by
  obtain ⟨n, f, g, rfl, rfl⟩ := exists_eq_tabulated₂ 0 h
  simp only [covariation_tabulated, ← pow_two]
  exact Finset.sum_mul_sq_le_sq_mul_sq _ _ _

end Arith

end IndicatorFormula
