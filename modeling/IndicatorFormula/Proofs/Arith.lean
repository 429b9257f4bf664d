import Mathlib
import IndicatorFormula.Arith

/-!
# Exact arithmetic

In an ordered field with a root the operations of a calculation are those of the field, so that
nothing is rounded, undefined or infinite. Sums in lanes and blocks are plain sums there. A row of
values is written as a function of the place, which makes the totals of rows finite sums.
-/

namespace IndicatorFormula

/-- Numbers with a square root to calculate with. -/
class HasRoot (K : Type) where
  /-- The root of a number. -/
  root : K → K

/-- Fractions have the root of numerator and denominator, which is exact for squares. -/
instance : HasRoot ℚ := ⟨Rat.sqrt⟩

noncomputable instance : HasRoot ℝ := ⟨Real.sqrt⟩

/-- A field calculates exactly. -/
instance (priority := 100) Arith.exact {K : Type} [Field K] [LinearOrder K] [HasRoot K] :
    Arith K where
  ofNat n := n
  sqrt := HasRoot.root
  lt x y := decide (x < y)
  eq x y := decide (x = y)
  isNaN _ := false
  isFinite _ := true

-- What is written `x + y` below is the sum of the field and not that of the calculations.
attribute [local instance (50)] Arith.toAdd Arith.toSub Arith.toMul Arith.toDiv

/-- The values of a function at the places 0, 1, 2 and so on. -/
def tabulated {β : Type} (n : ℕ) (f : ℕ → β) : List β := (List.range n).map f

section Tabulated

variable {β γ δ : Type} {n : ℕ} {f g : ℕ → β}

@[simp] theorem length_tabulated (n : ℕ) (f : ℕ → β) : (tabulated n f).length = n := by
  simp [tabulated]

@[simp] theorem getElem_tabulated {i : ℕ} (hi : i < (tabulated n f).length) :
    (tabulated n f)[i] = f i := by
  simp [tabulated]

theorem mem_tabulated {x : β} : x ∈ tabulated n f ↔ ∃ i < n, f i = x := by
  simp [tabulated]

theorem tabulated_congr (h : ∀ i < n, f i = g i) : tabulated n f = tabulated n g :=
  List.map_congr_left fun i hi => h i (List.mem_range.mp hi)

@[simp] theorem map_tabulated (n : ℕ) (f : ℕ → β) (g : β → γ) :
    (tabulated n f).map g = tabulated n fun i => g (f i) := by
  simp [tabulated]

@[simp] theorem zipWith_tabulated (g : β → γ → δ) (n : ℕ) (f : ℕ → β) (f' : ℕ → γ) :
    List.zipWith g (tabulated n f) (tabulated n f') = tabulated n fun i => g (f i) (f' i) := by
  simp [tabulated, List.zipWith_map]

/-- The places of a tabulated list are those of the table. -/
theorem zipIdx_tabulated {β : Type} (n : ℕ) (f : ℕ → β) :
    (tabulated n f).zipIdx = tabulated n fun i => (f i, i) := by
  refine List.ext_getElem (by simp) fun i hi _ => ?_
  simp

/-- Every row lists its values by place. -/
theorem exists_eq_tabulated (x : β) (xs : List β) : ∃ n f, xs = tabulated n f := by
  refine ⟨xs.length, fun i => xs.getD i x, List.ext_getElem (by simp) fun i hi _ => ?_⟩
  simp [List.getD_eq_getElem?_getD, hi]

/-- Two lists of one length are tabulated over the same places. -/
theorem exists_eq_tabulated₂ (x : β) {xs ys : List β} (h : xs.length = ys.length) :
    ∃ n f g, xs = tabulated n f ∧ ys = tabulated n g := by
  obtain ⟨n, f, rfl⟩ := exists_eq_tabulated x xs
  obtain ⟨m, g, rfl⟩ := exists_eq_tabulated x ys
  rw [length_tabulated, length_tabulated] at h
  exact ⟨n, f, g, rfl, h ▸ rfl⟩

theorem sum_tabulated [AddCommMonoid β] (n : ℕ) (f : ℕ → β) :
    (tabulated n f).sum = ∑ i ∈ Finset.range n, f i := by
  rw [Finset.sum, Finset.range_val, Multiset.range, Multiset.map_coe, Multiset.sum_coe, tabulated]

/-- Adding one after another from the left gives the sum. -/
theorem foldl_add [AddMonoid β] (x : β) (xs : List β) :
    xs.foldl (fun a b => a + b) x = x + xs.sum := by
  induction xs generalizing x with
  | nil => simp
  | cons y ys ih => rw [List.foldl_cons, ih, List.sum_cons, add_assoc]

end Tabulated

/-- All values of a row are the same. -/
def IsConstant {β : Type} (xs : List β) : Prop := ∀ x ∈ xs, ∀ y ∈ xs, x = y

section Range

variable {K : Type} [LinearOrder K] {xs : List K} {low high x : K} {f : K → K}

/-- The smallest and the largest value of a row. -/
structure HasRange (xs : List K) (low high : K) : Prop where
  /-- No value is below the first. -/
  smallest : xs.min? = some low
  /-- No value is above the second. -/
  largest : xs.max? = some high

/-- A list that is not empty has a range. -/
theorem exists_hasRange (h : xs ≠ []) : ∃ low high, HasRange xs low high := by
  obtain ⟨low, hlow⟩ := Option.isSome_iff_exists.mp (List.isSome_min?_of_ne_nil h)
  obtain ⟨high, hhigh⟩ := Option.isSome_iff_exists.mp (List.isSome_max?_of_ne_nil h)
  exact ⟨low, high, hlow, hhigh⟩

theorem HasRange.le (h : HasRange xs low high) (hx : x ∈ xs) : low ≤ x :=
  (List.min?_eq_some_iff.mp h.smallest).2 x hx

theorem HasRange.ge (h : HasRange xs low high) (hx : x ∈ xs) : x ≤ high :=
  (List.max?_eq_some_iff.mp h.largest).2 x hx

theorem HasRange.low_mem (h : HasRange xs low high) : low ∈ xs := List.min?_mem h.smallest

theorem HasRange.high_mem (h : HasRange xs low high) : high ∈ xs := List.max?_mem h.largest

/-- A range without extent is that of equal values. -/
theorem HasRange.eq_iff (h : HasRange xs low high) : high = low ↔ IsConstant xs := by
  constructor
  · rintro rfl x hx y hy
    rw [le_antisymm (h.ge hx) (h.le hx), le_antisymm (h.ge hy) (h.le hy)]
  · intro hconstant
    exact hconstant _ h.high_mem _ h.low_mem

/-- A monotone function carries a range to a range. -/
theorem HasRange.map_monotone (h : HasRange xs low high) (hf : Monotone f) :
    HasRange (xs.map f) (f low) (f high) := by
  refine ⟨List.min?_eq_some_iff.mpr ⟨List.mem_map_of_mem h.low_mem, ?_⟩,
    List.max?_eq_some_iff.mpr ⟨List.mem_map_of_mem h.high_mem, ?_⟩⟩
  · exact List.forall_mem_map.mpr fun x hx => hf (h.le hx)
  · exact List.forall_mem_map.mpr fun x hx => hf (h.ge hx)

/-- An antitone function carries a range to one that is turned over. -/
theorem HasRange.map_antitone (h : HasRange xs low high) (hf : Antitone f) :
    HasRange (xs.map f) (f high) (f low) := by
  refine ⟨List.min?_eq_some_iff.mpr ⟨List.mem_map_of_mem h.high_mem, ?_⟩,
    List.max?_eq_some_iff.mpr ⟨List.mem_map_of_mem h.low_mem, ?_⟩⟩
  · exact List.forall_mem_map.mpr fun x hx => hf (h.ge hx)
  · exact List.forall_mem_map.mpr fun x hx => hf (h.le hx)

end Range

namespace Arith

variable {K : Type} [Field K] [LinearOrder K] [HasRoot K]

theorem zero_eq : (Arith.zero : K) = 0 := Nat.cast_zero

theorem one_eq : (Arith.one : K) = 1 := Nat.cast_one

/-- Over an ordered field only zero is taken for zero. -/
theorem isZero_iff {x : K} : Arith.isZero x = true ↔ x = 0 := by
  rw [isZero, zero_eq]
  exact decide_eq_true_iff

theorem lt_iff {x y : K} : Arith.lt x y = true ↔ x < y := decide_eq_true_iff

theorem clamp_eq_self {low high x : K} (hlow : low ≤ x) (hhigh : x ≤ high) :
    clamp low high x = x := by
  rw [clamp, if_neg (mt lt_iff.mp hlow.not_gt), if_neg (mt lt_iff.mp hhigh.not_gt)]

theorem larger_eq (x y : K) : larger x y = max x y := by
  simp only [larger, max_def_lt, lt_iff]

/-- The smaller of two numbers is their minimum. -/
theorem smaller_eq (x y : K) : smaller x y = min x y := by
  rw [min_comm]
  simp only [smaller, min_def_lt, lt_iff]

/-- The absolute value is that of the field. -/
theorem abs_eq [IsStrictOrderedRing K] (x : K) : Arith.abs x = |x| := by
  rw [Arith.abs, zero_eq]
  by_cases h : x < 0
  · rw [if_pos (lt_iff.mpr h), abs_of_neg h]
    exact zero_sub x
  · rw [if_neg (mt lt_iff.mp h), abs_of_nonneg (not_lt.mp h)]

theorem maximum?_eq (xs : List K) : maximum? xs = xs.max? := by
  cases xs with
  | nil => rfl
  | cons x xs =>
    rw [maximum?, List.max?_cons', show (larger : K → K → K) = max from funext₂ larger_eq]

theorem minimum?_eq (xs : List K) : minimum? xs = xs.min? := by
  cases xs with
  | nil => rfl
  | cons x xs =>
    rw [minimum?, List.min?_cons', show (smaller : K → K → K) = min from funext₂ smaller_eq]

theorem numbers_eq (xs : List K) : Arith.numbers xs = xs := List.filter_eq_self.mpr fun _ _ => rfl

/-- A running sum is the sum. -/
theorem runningSum_eq (xs : List K) : runningSum xs = xs.sum := by
  rw [runningSum, zero_eq]
  exact (foldl_add 0 xs).trans (zero_add _)

/-- The lanes are combined to their sum. -/
theorem combineLanes_eq {lanes : List K} (h : lanes.length = 8) :
    combineLanes lanes = lanes.sum := by
  match lanes, h with
  | [a, b, c, d, e, f, g, i], _ =>
    change ((a + b) + (c + d)) + ((e + f) + (g + i)) = _
    simp only [List.sum_cons, List.sum_nil]
    ring

/-- Adding in lanes gives the sum of the lanes and of what is added. -/
theorem laneSum_eq {lanes : List K} (h : lanes.length = 8) (xs : List K) :
    laneSum lanes xs = lanes.sum + xs.sum := by
  induction lanes, xs using laneSum.induct with
  | case1 lanes xs hlong ih =>
    have htake : lanes.length = (xs.take 8).length := by
      rw [List.length_take]
      omega
    rw [laneSum, if_pos hlong, ih (by rw [List.length_zipWith, ← htake, min_self, h])]
    calc (List.zipWith (fun a b => a + b) lanes (xs.take 8)).sum + (xs.drop 8).sum
        = lanes.sum + (xs.take 8).sum + (xs.drop 8).sum := by
          rw [List.sum_add_sum_eq_sum_zipWith_of_length_eq _ _ htake]
      _ = lanes.sum + xs.sum := by rw [add_assoc, List.sum_take_add_sum_drop]
  | case2 lanes xs hshort =>
    rw [laneSum, if_neg hshort, combineLanes_eq h]
    exact foldl_add lanes.sum xs

/-- Without rounding it does not matter in what order numbers are added. -/
theorem sum_eq (xs : List K) : Arith.sum xs = xs.sum := by
  induction xs using Arith.sum.induct with
  | case1 xs hshort => rw [Arith.sum, if_pos hshort, runningSum_eq]
  | case2 xs hlong hblock =>
    rw [Arith.sum, if_neg hlong, if_pos hblock, laneSum_eq (by rw [List.length_take]; omega),
      List.sum_take_add_sum_drop]
  | case3 xs hlong hblock middle ihleft ihright =>
    rw [Arith.sum, if_neg hlong, if_neg hblock]
    change Arith.sum (xs.take middle) + Arith.sum (xs.drop middle) = _
    rw [ihleft, ihright, List.sum_take_add_sum_drop]

/-- A mean is the sum divided by the count. -/
theorem mean_eq (xs : List K) : mean xs = xs.sum / xs.length := by
  rw [mean, sum_eq]
  rfl

/-- The product of tabulated lists is a sum of products. -/
theorem dot_tabulated (n : ℕ) (f g : ℕ → K) :
    dot (tabulated n f) (tabulated n g) = ∑ i ∈ Finset.range n, f i * g i := by
  rw [dot, zipWith_tabulated, sum_eq]
  exact sum_tabulated n _

end Arith

end IndicatorFormula
