import IndicatorFormula.Proofs.Arith
import IndicatorFormula.Series.SeasonalAdjustment

/-!
# The centred moving average in exact arithmetic

The average over a cycle is the mean of two blocks of one cycle each. They are one and the same
block for an odd cycle, and stand one place apart for an even one, which is why the end weights of
an even cycle are halved. The average is defined where both blocks fit, is the value of a line
about its centre, and does not see a pattern that recurs in every cycle and adds up to nothing.
-/

namespace IndicatorFormula.Series

open Arith

attribute [local instance (50)] Arith.toAdd Arith.toSub Arith.toMul Arith.toDiv

section Rows

variable {β : Type}

theorem tabulated_const (n : ℕ) (x : β) : tabulated n (fun _ => x) = List.replicate n x := by
  simp [tabulated]

/-- A table is one of its first part and one of its rest. -/
theorem tabulated_add (m n : ℕ) (f : ℕ → β) :
    tabulated (m + n) f = tabulated m f ++ tabulated n fun i => f (m + i) := by
  rw [tabulated, List.range_add, List.map_append, List.map_map]
  rfl

/-- The windows of a row start at each place in turn. -/
theorem windows_tabulated (w n : ℕ) (f : ℕ → β) :
    windows w (tabulated n f) = tabulated (n + 1 - w) fun k => tabulated w fun j => f (k + j) := by
  rw [windows, length_tabulated]
  refine List.map_congr_left fun k hk => List.ext_getElem ?_ fun j hj _ => ?_
  · have := List.mem_range.mp hk
    simp only [List.length_take, List.length_drop, length_tabulated]
    omega
  · simp

end Rows

variable {K : Type} [Field K]

/-- The total of a cycle that starts at a place. -/
def block (m : ℕ) (f : ℕ → K) (k : ℕ) : K := ∑ j ∈ Finset.range m, f (k + j)

/-- The mean over the two cycles about a centre, the first of which starts at a place. -/
def cycleAverage (m : ℕ) (f : ℕ → K) (k : ℕ) : K :=
  (block m f k + block m f (k + (m + 1) % 2)) / (2 * m)

/-- The sum of a block under an affine map. -/
theorem block_affine (m : ℕ) (f : ℕ → K) (a b : K) (k : ℕ) :
    block m (fun i => a * f i + b) k = a * block m f k + m * b := by
  rw [block, block, Finset.sum_add_distrib, ← Finset.mul_sum, Finset.sum_const, Finset.card_range,
    nsmul_eq_mul]

variable {m : ℕ}

/-- The average of a cycle follows an affine map. -/
theorem cycleAverage_affine [CharZero K] (hm : m ≠ 0) (f : ℕ → K) (a b : K) (k : ℕ) :
    cycleAverage m (fun i => a * f i + b) k = a * cycleAverage m f k + b := by
  have hcast : (m : K) ≠ 0 := Nat.cast_ne_zero.mpr hm
  rw [cycleAverage, cycleAverage, block_affine, block_affine]
  field_simp
  ring

/-- The average of a cycle is additive. -/
theorem cycleAverage_add (m : ℕ) (f g : ℕ → K) (k : ℕ) :
    cycleAverage m (fun i => f i + g i) k = cycleAverage m f k + cycleAverage m g k := by
  simp only [cycleAverage, block, Finset.sum_add_distrib]
  ring

/-- Numbered places have the number of the centre as their average. -/
theorem cycleAverage_cast [CharZero K] (hm : m ≠ 0) (k : ℕ) :
    cycleAverage m (fun i => (i : K)) k = (k + m / 2 : ℕ) := by
  have hcast : (m : K) ≠ 0 := Nat.cast_ne_zero.mpr hm
  have hgauss : (∑ j ∈ Finset.range m, (j : K)) * 2 + m = m * m := by
    have hnat : (∑ j ∈ Finset.range m, j) * 2 + m = m * m := by
      rw [Finset.sum_range_id_mul_two, ← Nat.mul_succ, Nat.succ_eq_add_one, Nat.sub_add_cancel]
      omega
    rw [← Nat.cast_sum]
    exact_mod_cast hnat
  have hblock (k : ℕ) : block m (fun i => (i : K)) k = m * k + ∑ j ∈ Finset.range m, (j : K) := by
    simp only [block, Nat.cast_add, Finset.sum_add_distrib, Finset.sum_const, Finset.card_range,
      nsmul_eq_mul]
  have hparity : ((m + 1) % 2 : ℕ) + (m : K) = 2 * (m / 2 : ℕ) + 1 := by
    have hnat : (m + 1) % 2 + m = 2 * (m / 2) + 1 := by omega
    exact_mod_cast hnat
  rw [cycleAverage, hblock, hblock, div_eq_iff (mul_ne_zero two_ne_zero hcast)]
  push_cast
  linear_combination hgauss + m * hparity

/-- Every block of a pattern that recurs has the same total. -/
theorem block_mod (m : ℕ) (pattern : ℕ → K) (k : ℕ) :
    block m (fun i => pattern (i % m)) k = ∑ j ∈ Finset.range m, pattern j := by
  induction k with
  | zero =>
    refine Finset.sum_congr rfl fun j hj => congrArg pattern ?_
    rw [zero_add, Nat.mod_eq_of_lt (Finset.mem_range.mp hj)]
  | succ k ih =>
    -- The next block loses its first value and gains the same value at its end.
    have hfront := Finset.sum_range_succ' (fun j => pattern ((k + j) % m)) m
    have hback := Finset.sum_range_succ (fun j => pattern ((k + j) % m)) m
    rw [Nat.add_mod_right, hfront, add_zero, add_left_inj] at hback
    rw [← ih, block, block, ← hback]
    simp only [add_assoc, add_comm 1]

/-- A pattern without a total is averaged out. -/
theorem cycleAverage_mod {pattern : ℕ → K} (hpattern : ∑ j ∈ Finset.range m, pattern j = 0)
    (k : ℕ) : cycleAverage m (fun i => pattern (i % m)) k = 0 := by
  rw [cycleAverage, block_mod, block_mod, hpattern, add_zero, zero_div]

/-- The weights cover one cycle, and one more place if it is even. -/
theorem length_averageWeights {α : Type} [Arith α] (hm : m ≠ 0) :
    (averageWeights m : List α).length = 2 * (m / 2) + 1 := by
  rw [averageWeights]
  split
  · rw [List.length_replicate]
    omega
  · simp only [List.length_append, List.length_replicate, List.length_singleton]
    omega

variable [LinearOrder K] [HasRoot K]

theorem dot_append {xs xs' ys ys' : List K} (h : xs.length = ys.length) :
    dot (xs ++ xs') (ys ++ ys') = dot xs ys + dot xs' ys' := by
  rw [dot, dot, dot, List.zipWith_append h, sum_eq, sum_eq, sum_eq, List.sum_append]

/-- Equal weights add up the values. -/
theorem dot_replicate (n : ℕ) (f : ℕ → K) (x : K) :
    dot (tabulated n f) (List.replicate n x) = (∑ i ∈ Finset.range n, f i) * x := by
  rw [← tabulated_const, dot_tabulated, Finset.sum_mul]

/-- The ends of a window may have a weight of their own. -/
theorem dot_ends (n : ℕ) (f : ℕ → K) (x y : K) :
    dot (tabulated (1 + n + 1) f) ([x] ++ List.replicate n y ++ [x]) =
      (f 0 + f (n + 1)) * x + (∑ i ∈ Finset.range n, f (i + 1)) * y := by
  have hends : [x] = List.replicate 1 x := rfl
  rw [hends, tabulated_add, tabulated_add, dot_append (by simp [add_comm]), dot_append (by simp),
    dot_replicate, dot_replicate, dot_replicate, Finset.sum_range_one, Finset.sum_range_one]
  simp only [add_comm 1, add_zero]
  ring

variable [IsStrictOrderedRing K]

/-- The weighted sum of a window is the average of its two cycles. -/
theorem dot_averageWeights (hm : m ≠ 0) (f : ℕ → K) :
    dot (tabulated (2 * (m / 2) + 1) f) (averageWeights m) = cycleAverage m f 0 := by
  have hcast : (m : K) ≠ 0 := Nat.cast_ne_zero.mpr hm
  have hof : (Arith.ofNat m : K) = m := rfl
  have hhalf : (Arith.half : K) = 1 / 2 := by
    rw [half, one_eq]
    exact congrArg (fun x : K => 1 / x) Nat.cast_two
  rw [averageWeights, one_eq, hof, hhalf, cycleAverage]
  split
  case isTrue hodd =>
    have hwindow : 2 * (m / 2) + 1 = m := by omega
    have hsame : 0 + (m + 1) % 2 = 0 := by omega
    simp only [hwindow, hsame, dot_replicate, block, zero_add]
    field_simp
    ring
  case isFalse heven =>
    obtain ⟨n, rfl⟩ := Nat.exists_eq_add_one_of_ne_zero hm
    have hwindow : 2 * ((n + 1) / 2) + 1 = 1 + n + 1 := by omega
    have hnext : 0 + (n + 1 + 1) % 2 = 1 := by omega
    rw [hwindow, hnext, Nat.add_sub_cancel, dot_ends, block, block, Finset.sum_range_succ',
      Finset.sum_range_succ]
    simp only [zero_add, add_comm 1]
    field_simp
    ring

/-- The centred average is defined where both cycles about a place are within the row. -/
theorem centeredAverage_tabulated (hm : m ≠ 0) (n : ℕ) (f : ℕ → K) :
    centeredAverage m (tabulated n f) = .ok (tabulated n fun i =>
      if m / 2 ≤ i ∧ i + m / 2 < n then some (cycleAverage m f (i - m / 2)) else none) := by
  rw [centeredAverage, if_neg hm]
  simp only [length_averageWeights hm, length_tabulated]
  split
  case isTrue hshort =>
    rw [map_tabulated]
    refine congrArg Except.ok (tabulated_congr fun i hi => (if_neg ?_).symm)
    omega
  case isFalse hlong =>
    obtain ⟨c, rfl⟩ : ∃ c, n = m / 2 + c + m / 2 := ⟨n - 2 * (m / 2), by omega⟩
    have hedge : (2 * (m / 2) + 1) / 2 = m / 2 := by omega
    have hwindows : m / 2 + c + m / 2 + 1 - (2 * (m / 2) + 1) = c := by omega
    have hmoved (k : ℕ) : cycleAverage m (fun j => f (k + j)) 0 = cycleAverage m f k := by
      simp only [cycleAverage, block, zero_add, add_assoc]
    rw [windows_tabulated, hwindows, map_tabulated, hedge, ← tabulated_const,
      tabulated_add (_ + _), tabulated_add]
    simp only [dot_averageWeights hm, hmoved]
    congr 2
    · congr 1
      · refine tabulated_congr fun i hi => (if_neg ?_).symm
        omega
      · refine tabulated_congr fun i hi => ?_
        rw [if_pos (by omega), Nat.add_sub_cancel_left]
    · refine tabulated_congr fun i hi => (if_neg ?_).symm
      omega

/-- A centred average exists for every cycle. -/
theorem exists_centeredAverage (hm : m ≠ 0) (xs : List K) :
    ∃ trend, centeredAverage m xs = .ok trend := by
  obtain ⟨n, f, rfl⟩ := exists_eq_tabulated 0 xs
  exact ⟨_, centeredAverage_tabulated hm n f⟩

/-- In another unit the average is the same. -/
theorem centeredAverage_affine (hm : m ≠ 0) {xs : List K} {trend : List (Option K)}
    (htrend : centeredAverage m xs = .ok trend) (a b : K) :
    centeredAverage m (xs.map fun x => a * x + b) =
      .ok (trend.map (Option.map fun x => a * x + b)) := by
  obtain ⟨n, f, rfl⟩ := exists_eq_tabulated 0 xs
  rw [centeredAverage_tabulated hm] at htrend
  cases htrend
  rw [map_tabulated, centeredAverage_tabulated hm, map_tabulated]
  refine congrArg Except.ok (tabulated_congr fun i _ => ?_)
  split
  · rw [cycleAverage_affine hm]
    rfl
  · rfl

end IndicatorFormula.Series
