import IndicatorFormula.Proofs.Evaluation.Representation

/-!
# Numbers that are undefined

A series never holds an undefined value, but infinite values are kept, and a number that is
computed of them can be undefined. A formula whose number is undefined is a call of a function
that adds or divides; a function that picks or counts values gives a number.
-/

namespace IndicatorFormula

open IndicatorFormula.Except

namespace Arith

variable {α : Type}

/-- A fold that keeps one of two values each time ends with one of those given. -/
theorem mem_of_foldl {f : α → α → α} (hf : ∀ x y, f x y = x ∨ f x y = y) (x : α) (xs : List α) :
    xs.foldl f x ∈ x :: xs := by
  induction xs generalizing x with
  | nil => exact List.mem_singleton.mpr rfl
  | cons y xs ih =>
    rw [List.foldl_cons]
    rcases List.mem_cons.mp (ih (f x y)) with hlast | hmem
    · rw [hlast]
      rcases hf x y with hpick | hpick
      · rw [hpick]
        exact List.mem_cons_self ..
      · rw [hpick]
        exact List.mem_cons_of_mem x (List.mem_cons_self ..)
    · exact List.mem_cons_of_mem x (List.mem_cons_of_mem y hmem)

variable [Arith α]

/-- The larger of two values is one of them. -/
theorem larger_eq_or (x y : α) : larger x y = x ∨ larger x y = y := by
  unfold larger
  split
  · exact .inr rfl
  · exact .inl rfl

/-- The smaller of two values is one of them. -/
theorem smaller_eq_or (x y : α) : smaller x y = x ∨ smaller x y = y := by
  unfold smaller
  split
  · exact .inr rfl
  · exact .inl rfl

/-- The greatest of some values is one of them. -/
theorem getD_maximum?_mem {xs : List α} (hne : xs ≠ []) (d : α) : (maximum? xs).getD d ∈ xs := by
  cases xs with
  | nil => exact absurd rfl hne
  | cons x xs => exact mem_of_foldl larger_eq_or x xs

/-- The least of some values is one of them. -/
theorem getD_minimum?_mem {xs : List α} (hne : xs ≠ []) (d : α) : (minimum? xs).getD d ∈ xs := by
  cases xs with
  | nil => exact absurd rfl hne
  | cons x xs => exact mem_of_foldl smaller_eq_or x xs

end Arith

namespace Function

/-- The function gives a number that it computes by adding or dividing. -/
def isComputed : Function → Bool
  | sum | avg | linearRegressionSlope | rSquared => true
  | sharpeRatio | sortinoRatio | maxDrawdown => true
  | _ => false

variable {site : CallSite}

/-- A reduction that gives a value had one to reduce. -/
theorem reduce_eq_ok {f : Function} {reduction : List Float → Float} {s : Series Float} {x : Float}
    (h : reduce f site reduction s = .ok x) : s.values ≠ [] ∧ reduction s.values = x := by
  unfold reduce at h
  split at h
  · cases h
  · rename_i hne
    split at h
    · cases h
    · cases h
      exact ⟨by simpa [Series.values] using hne, rfl⟩

/-- What is picked of numbers or counts them is a number. -/
theorem isNaN_apply {f : Function} {values : Arguments f.slots} {x : f.returns.Carrier} {y : Float}
    (hvalues : ∀ s ∈ Arguments.series f.slots values, ∀ z ∈ s.values, z.isNaN = false)
    (h : f.apply site values = .ok x) (hx : Value.of f.returns x = .scalar y)
    (hf : f.isComputed = false) : y.isNaN = false := by
  cases f with
  | min =>
    cases hx
    simp only [apply] at h
    obtain ⟨hne, rfl⟩ := reduce_eq_ok h
    exact hvalues _ (List.mem_singleton.mpr rfl) _ (Arith.getD_minimum?_mem hne _)
  | max =>
    cases hx
    simp only [apply] at h
    obtain ⟨hne, rfl⟩ := reduce_eq_ok h
    exact hvalues _ (List.mem_singleton.mpr rfl) _ (Arith.getD_maximum?_mem hne _)
  | count =>
    cases hx
    simp only [apply] at h
    obtain ⟨-, rfl⟩ := reduce_eq_ok h
    exact Decimal.isNaN_toFloat _
  | sum | avg | linearRegressionSlope | rSquared => cases hf
  | sharpeRatio | sortinoRatio | maxDrawdown => cases hf
  | _ => cases hx

end Function

namespace Formula

variable {observed : Observed}

/-- A formula whose number is undefined is a call of a function that adds or divides. -/
theorem isComputed_of_value {f : Formula} (hf : f.isCanonical = true)
    (hobserved : ∀ slug s, observed.find? slug = some s → ∀ x ∈ s.values, x.isNaN = false)
    {y : Float} (h : f.value observed = .ok (.scalar y)) (hy : y.isNaN = true) :
    ∃ (g : Function) (args : List Formula) (p : Nat),
      f = call g.name args p ∧ g.isComputed = true := by
  cases f with
  | number x p =>
    cases h
    rw [Decimal.isNaN_eq_false_of_isFinite hf] at hy
    cases hy
  | literal content p => cases h
  | indicator slug p =>
    obtain ⟨s, -, hs⟩ := map_eq_ok.mp h
    cases hs
  | call name args p =>
    obtain ⟨g, values, x, hfunction, -, -, hgive, hx, hvalue⟩ := value_call_inv h
    obtain ⟨hname, -⟩ := isCanonical_call_iff.mp hf
    obtain rfl := name_eq_of_ofName? hname hfunction
    refine ⟨g, args, p, rfl, Bool.of_not_eq_false fun hcomputed => ?_⟩
    have hdefined : y.isNaN = false := by
      refine Function.isNaN_apply ?_ hx hvalue.symm hcomputed
      intro s hs
      obtain ⟨arg, -, harg⟩ := hgive.mem_series.mp hs
      exact isNaN_value hobserved harg
    rw [hdefined] at hy
    cases hy
  | hole => cases h

end Formula

end IndicatorFormula
