import IndicatorFormula.Function.Apply
import IndicatorFormula.Proofs.Decimal.Vanishing

/-!
# Equal values

A ratio whose denominator is the spread of some values is refused if the spread is zero. The
spread is computed of the distances from the computed mean, so that equal values are recognised
just when the square of the distance of the value from their mean vanishes. It does whenever the
multiples of the value fit a mantissa, and it need not where a sum is rounded.
-/

namespace IndicatorFormula

open Decimal

section Totals

variable {α : Type} [Arith α]

/-- How many of some numbers a total is made of: zero is made of none, and a sum is made of what
its parts are made of, up to a greatest count. -/
structure IsCount (n : ℕ) (holds : α → ℕ → Prop) : Prop where
  /-- Zero is made of none. -/
  zero : holds Arith.zero 0
  /-- A sum is made of what its parts are made of. -/
  add : ∀ {a b j k}, holds a j → holds b k → j + k ≤ n → holds (a + b) (j + k)

variable {n : ℕ} {holds : α → ℕ → Prop}

/-- Adding up values of one unit counts them. -/
theorem IsCount.foldl (h : IsCount n holds) {a : α} {j : ℕ} (ha : holds a j) {xs : List α}
    (hxs : ∀ x ∈ xs, holds x 1) (hn : j + xs.length ≤ n) :
    holds (xs.foldl (· + ·) a) (j + xs.length) := by
  induction xs generalizing a j with
  | nil => exact ha
  | cons x xs ih =>
    obtain ⟨hx, hxs⟩ := List.forall_mem_cons.mp hxs
    rw [List.length_cons] at hn ⊢
    rw [List.foldl_cons, Nat.add_comm xs.length, ← Nat.add_assoc]
    exact ih (h.add ha hx (by omega)) hxs (by omega)

/-- Combining eight lanes adds up what they count. -/
theorem IsCount.combineLanes (h : IsCount n holds) {lanes : List α} {j : ℕ}
    (hlength : lanes.length = 8) (hlanes : ∀ a ∈ lanes, holds a j) (hn : 8 * j ≤ n) :
    holds (Arith.combineLanes lanes) (8 * j) := by
  match lanes, hlength with
  | [a, b, c, d, e, f, g, i], _ =>
    simp only [List.forall_mem_cons] at hlanes
    obtain ⟨ha, hb, hc, hd, he, hf, hg, hi, -⟩ := hlanes
    have hleft := h.add (h.add ha hb (by omega)) (h.add hc hd (by omega)) (by omega)
    have hright := h.add (h.add he hf (by omega)) (h.add hg hi (by omega)) (by omega)
    have hall := h.add hleft hright (by omega)
    rwa [show j + j + (j + j) + (j + j + (j + j)) = 8 * j by omega] at hall

/-- Summing in eight lanes counts the values. -/
theorem IsCount.laneSum (h : IsCount n holds) {lanes xs : List α} {j : ℕ}
    (hlength : lanes.length = 8) (hlanes : ∀ a ∈ lanes, holds a j) (hxs : ∀ x ∈ xs, holds x 1)
    (hn : 8 * j + xs.length ≤ n) :
    holds (Arith.laneSum lanes xs) (8 * j + xs.length) := by
  induction lanes, xs using Arith.laneSum.induct generalizing j with
  | case1 lanes xs hlong ih =>
    rw [Arith.laneSum, if_pos hlong]
    have hnext : ∀ a ∈ List.zipWith (· + ·) lanes (xs.take 8), holds a (j + 1) := by
      intro a ha
      obtain ⟨i, hi, rfl⟩ := List.getElem_of_mem ha
      rw [List.getElem_zipWith]
      exact h.add (hlanes _ (List.getElem_mem _))
        (hxs _ (List.mem_of_mem_take (List.getElem_mem _))) (by omega)
    have hrest := ih (by simp only [List.length_zipWith, List.length_take]; omega) hnext
      (fun x hx => hxs x (List.mem_of_mem_drop hx)) (by rw [List.length_drop]; omega)
    rwa [List.length_drop, show 8 * (j + 1) + (xs.length - 8) = 8 * j + xs.length by omega]
      at hrest
  | case2 lanes xs hshort =>
    rw [Arith.laneSum, if_neg hshort]
    exact h.foldl (h.combineLanes hlength hlanes (by omega)) hxs hn

/-- Pairwise summation counts the values. -/
theorem IsCount.sum (h : IsCount n holds) {xs : List α} (hxs : ∀ x ∈ xs, holds x 1)
    (hn : xs.length ≤ n) : holds (Arith.sum xs) xs.length := by
  induction xs using Arith.sum.induct with
  | case1 xs hshort =>
    rw [Arith.sum, if_pos hshort, Arith.runningSum]
    simpa using h.foldl h.zero hxs (by omega)
  | case2 xs hlong hblock =>
    rw [Arith.sum, if_neg hlong, if_pos hblock]
    have hlanes : holds (Arith.laneSum (xs.take 8) (xs.drop 8)) (8 * 1 + (xs.drop 8).length) :=
      h.laneSum (by rw [List.length_take]; omega) (fun x hx => hxs x (List.mem_of_mem_take hx))
        (fun x hx => hxs x (List.mem_of_mem_drop hx)) (by rw [List.length_drop]; omega)
    rwa [List.length_drop, show 8 * 1 + (xs.length - 8) = xs.length by omega] at hlanes
  | case3 xs hlong hblock middle ihleft ihright =>
    rw [Arith.sum, if_neg hlong, if_neg hblock]
    have hleft := ihleft (fun x hx => hxs x (List.mem_of_mem_take hx))
      (by rw [List.length_take]; omega)
    have hright := ihright (fun x hx => hxs x (List.mem_of_mem_drop hx))
      (by rw [List.length_drop]; omega)
    rw [List.length_take] at hleft
    rw [List.length_drop] at hright
    have hboth := h.add hleft hright (by omega)
    rwa [show min middle xs.length + (xs.length - middle) = xs.length by omega] at hboth

end Totals

section Doubles

variable {xs ds : List Float} {x y z : Float} {p q : ℚ}

/-- A sum of equal doubles is exact if a double can hold all multiples up to it. -/
theorem holds_sum (hxs : ∀ x ∈ xs, Holds x q) (h : ∀ k ≤ xs.length, IsDouble (k * q)) :
    Holds (Arith.sum xs) (xs.length * q) := by
  have hcount : IsCount (α := Float) xs.length fun a k => Holds a (k * q) := by
    refine ⟨?_, fun {a b j k} ha hb hn => ?_⟩
    · rw [Nat.cast_zero, zero_mul]
      exact holds_zero
    · have hsum : (j : ℚ) * q + k * q = (j + k : ℕ) * q := by
        push_cast
        ring
      rw [← hsum]
      exact ha.add hb (hsum ▸ h _ hn)
  refine hcount.sum (fun x hx => ?_) le_rfl
  rw [Nat.cast_one, one_mul]
  exact hxs x hx

/-- The sum of zeros holds zero. -/
theorem holds_sum_zero (hds : ∀ d ∈ ds, Holds d 0) : Holds (Arith.sum ds) 0 := by
  have hsum := holds_sum hds fun k _ => by
    rw [mul_zero]
    exact isDouble_zero
  rwa [mul_zero] at hsum

/-- The mean of equal doubles is their value if a double can hold all their multiples. -/
theorem holds_mean (hne : xs ≠ []) (hxs : ∀ x ∈ xs, Holds x q)
    (h : ∀ k ≤ xs.length, IsDouble (k * q)) (hlength : xs.length < 2 ^ 53) :
    Holds (Arith.mean xs) q := by
  have hpos : 0 < xs.length := List.length_pos_iff.mpr hne
  have hcast : (xs.length : ℚ) ≠ 0 := by exact_mod_cast hpos.ne'
  have hquotient : (xs.length : ℚ) * q / xs.length = q := mul_div_cancel_left₀ q hcast
  have hdouble : IsDouble q := by
    have hone := h 1 hpos
    rwa [Nat.cast_one, one_mul] at hone
  have hmean := (holds_sum hxs h).div (holds_ofNat hlength) hcast (by rwa [hquotient])
  rwa [hquotient] at hmean

/-- A mean comes out so near to a value that the square of their distance vanishes. -/
def Coincides (mean x : Float) : Prop := Arith.isZero ((x - mean) * (x - mean)) = true

/-- The square of a zero holds zero. -/
theorem holds_mul_self_zero (hx : Holds x 0) : Holds (x * x) 0 := by
  have hsquare := hx.mul hx (by rw [mul_zero]; exact isDouble_zero)
  rwa [mul_zero] at hsquare

theorem Coincides.holds (h : Coincides y x) : Holds ((x - y) * (x - y)) 0 := holds_zero.of_beq h

/-- Only a finite mean coincides with a value. -/
theorem Coincides.isFinite (h : Coincides y x) : y.isFinite = true :=
  isFinite_of_sub (isFinite_of_packed (isFinite_of_mul_self (isFinite_of_packed h.holds.isFinite)))

/-- A mean that is the value coincides with it. -/
theorem coincides_of_holds (hx : Holds x q) (hy : Holds y q) : Coincides y x := by
  have hdistance := hx.sub hy (by rw [sub_self]; exact isDouble_zero)
  rw [sub_self] at hdistance
  exact (holds_mul_self_zero hdistance).isZero_iff.mpr rfl

/-- Two doubles that hold one fraction coincide with the same values. -/
theorem coincides_congr (hx : Holds x q) (hy : Holds y q) : Coincides z x ↔ Coincides z y := by
  rcases hx.sub_eq_or hy z with heq | ⟨hzero, hzero'⟩
  · rw [Coincides, Coincides, heq]
  · exact iff_of_true ((holds_mul_self_zero hzero).isZero_iff.mpr rfl)
      ((holds_mul_self_zero hzero').isZero_iff.mpr rfl)

/-- Values have no spread about a mean that coincides with them. -/
theorem holds_sumOfSquares (hx : Holds x q) (hxs : ∀ y ∈ xs, Holds y q)
    (h : Coincides (Arith.mean xs) x) :
    Holds (Series.sumOfSquares (Arith.deviations xs)) 0 := by
  refine holds_sum_zero fun s hs => ?_
  obtain ⟨d, hd, rfl⟩ := List.mem_map.mp hs
  obtain ⟨y, hy, rfl⟩ := List.mem_map.mp hd
  exact ((coincides_congr hx (hxs y hy)).mp h).holds

/-- A sum reaches as many quanta as it has summands above zero. -/
theorem reaches_sum (hne : xs ≠ []) (hxs : ∀ x ∈ xs, Reaches x 1) :
    Reaches (Arith.sum xs) (min xs.length (2 ^ 53)) := by
  have hcount : IsCount (α := Float) xs.length fun a k =>
      k = 0 ∧ Holds a 0 ∨ 0 < k ∧ Reaches a (min k (2 ^ 53)) := by
    refine ⟨.inl ⟨rfl, holds_zero⟩, fun {a b j k} ha hb _ => ?_⟩
    rcases ha with ⟨rfl, ha⟩ | ⟨hj, ha⟩ <;> rcases hb with ⟨rfl, hb⟩ | ⟨hk, hb⟩
    · refine .inl ⟨rfl, ?_⟩
      have hsum := ha.add hb (by rw [add_zero]; exact isDouble_zero)
      rwa [add_zero] at hsum
    · refine .inr ⟨by omega, ?_⟩
      rw [zero_add]
      exact .zero_add ha hb
    · exact .inr ⟨by omega, .add_zero ha hb⟩
    · exact .inr ⟨by omega, ha.add hb (by omega) (by omega) (by omega)⟩
  have hpos : 0 < xs.length := List.length_pos_iff.mpr hne
  have hsum := hcount.sum (fun x hx => .inr ⟨Nat.one_pos, hxs x hx⟩) le_rfl
  exact (hsum.resolve_left fun h => hpos.ne' h.1).2

/-- Values have a spread about any other mean. -/
theorem reaches_sumOfSquares (hne : xs ≠ []) (hx : Holds x q) (hxs : ∀ y ∈ xs, Holds y q)
    (h : ¬Coincides (Arith.mean xs) x) :
    Reaches (Series.sumOfSquares (Arith.deviations xs)) (min xs.length (2 ^ 53)) := by
  have hlength : xs.length = ((Arith.deviations xs).map fun d => d * d).length := by
    rw [List.length_map, Arith.deviations, List.length_map]
  rw [Series.sumOfSquares, hlength]
  refine reaches_sum (List.ne_nil_of_length_pos (hlength ▸ List.length_pos_iff.mpr hne))
    fun s hs => ?_
  obtain ⟨d, hd, rfl⟩ := List.mem_map.mp hs
  obtain ⟨y, hy, rfl⟩ := List.mem_map.mp hd
  refine (holds_zero_or_reaches_mul_self _).resolve_left fun hzero => h ?_
  exact (coincides_congr hx (hxs y hy)).mpr (hzero.isZero_iff.mpr rfl)

/-- The squared deviations of equal values vanish just when their computed mean is their value. -/
theorem isZero_sumOfSquares_iff (hne : xs ≠ []) (hx : Holds x q) (hxs : ∀ y ∈ xs, Holds y q) :
    Arith.isZero (Series.sumOfSquares (Arith.deviations xs)) = true ↔
      Coincides (Arith.mean xs) x := by
  refine ⟨fun hzero => ?_, fun h => (holds_sumOfSquares hx hxs h).isZero_iff.mpr rfl⟩
  by_contra h
  exact Bool.false_ne_true ((reaches_sumOfSquares hne hx hxs h).isZero_eq_false.symm.trans hzero)

theorem length_deviations : (Arith.deviations xs).length = xs.length := List.length_map _

/-- If the computed mean is the value, the deviation of equal values vanishes. -/
theorem isZero_rootMeanSquare (hx : Holds x q) (hxs : ∀ y ∈ xs, Holds y q)
    (h : Coincides (Arith.mean xs) x) :
    Arith.isZero (Series.rootMeanSquare (Arith.deviations xs)) = true := by
  rw [Series.rootMeanSquare, length_deviations]
  -- The count divides the sum to a finite mean, so that it divides zero to zero.
  exact ((holds_sumOfSquares hx hxs h).zero_div h.isFinite).sqrt_zero.isZero_iff.mpr rfl

/-- If the deviation of equal values vanishes, the computed mean is their value. -/
theorem coincides_of_isZero_rootMeanSquare (hne : xs ≠ []) (hx : Holds x q)
    (hxs : ∀ y ∈ xs, Holds y q) (hlength : xs.length < 2 ^ 53)
    (hzero : Arith.isZero (Series.rootMeanSquare (Arith.deviations xs)) = true) :
    Coincides (Arith.mean xs) x := by
  by_contra h
  have hsum := reaches_sumOfSquares hne hx hxs h
  rw [min_eq_left hlength.le] at hsum
  have hroot := (hsum.div (holds_ofNat hlength) (List.length_pos_iff.mpr hne)).sqrt
  rw [Series.rootMeanSquare, length_deviations] at hzero
  exact Bool.false_ne_true (hroot.isZero_eq_false.symm.trans hzero)

end Doubles

namespace Series

variable {s : Series Float} {q : ℚ}

/-- A series with a return has two points. -/
theorem two_le_length_of_pointReturns (h : s.pointReturns ≠ []) : 2 ≤ s.length := by
  by_contra hshort
  refine h ?_
  have hdrop : s.drop 1 = [] := List.drop_eq_nil_iff.mpr (by omega)
  rw [pointReturns, relativeChanges, withBase, hdrop]
  rfl

/-- A ratio is refused just when the deviation of the returns is zero. -/
theorem sharpeRatio_eq (hne : s.pointReturns ≠ []) (rate : Float) :
    s.sharpeRatio rate =
      if Arith.isZero (rootMeanSquare (Arith.deviations s.pointReturns.values)) then
        .error .zeroDeviation
      else .ok ((Arith.mean s.pointReturns.values - rate) /
        rootMeanSquare (Arith.deviations s.pointReturns.values)) := by
  have hrequire : require 2 s = .ok () := require_of_le (two_le_length_of_pointReturns hne)
  have hreturns : s.returns = .ok s.pointReturns.values := by
    rw [returns, hrequire]
    cases hr : s.pointReturns with
    | nil => exact absurd hr hne
    | cons p rest => rfl
  rw [sharpeRatio, hreturns]
  rfl

end Series

namespace Function

/-- A call fails since a denominator vanishes. -/
def RefusesDivision {β : Type} (r : Except Fault β) : Prop :=
  ∃ e, r = .error (.reported e) ∧ e.code = .divisionByZero

/-- The R-squared is refused just when its sum of squares is zero. -/
theorem refusesDivision_rSquared_iff {site : CallSite} {s : Placed (Series Float)}
    (hlength : 2 ≤ s.value.length) :
    RefusesDivision (rSquared.apply site (s, ())) ↔
      Arith.isZero (Series.sumOfSquares (Arith.deviations s.value.values)) = true := by
  rw [apply, Series.explainedShare_eq hlength]
  split
  case isTrue hzero =>
    exact iff_of_true ⟨{ cause := .data .zeroVariance }, rfl, rfl⟩ hzero
  case isFalse hne =>
    refine iff_of_false ?_ hne
    rintro ⟨e, he, -⟩
    cases he

/-- The Sharpe ratio is refused just when the deviation of its returns is zero. -/
theorem refusesDivision_sharpeRatio_iff {site : CallSite} {s : Placed (Series Float)}
    {rate : Placed Float} (hne : s.value.pointReturns ≠ []) :
    RefusesDivision (sharpeRatio.apply site (s, rate, ())) ↔
      Arith.isZero
        (Series.rootMeanSquare (Arith.deviations s.value.pointReturns.values)) = true := by
  rw [apply, Series.sharpeRatio_eq hne]
  split
  case isTrue hzero =>
    exact iff_of_true ⟨{ cause := .data .zeroDeviation }, rfl, rfl⟩ hzero
  case isFalse hne =>
    refine iff_of_false ?_ hne
    rintro ⟨e, he, -⟩
    cases he

/-- The ratios whose denominator is a spread are refused for equal values just when the computed
mean coincides with the value. It does if it is the value, and it is the value whenever the
multiples of the value fit a mantissa. -/
theorem equal_values_refused {x : Float} (hx : x.isFinite = true) :
    (∀ (site : CallSite) (s : Placed (Series Float)),
      2 ≤ s.value.length → (∀ y ∈ s.value.values, (y == x) = true) →
      (RefusesDivision (rSquared.apply site (s, ())) ↔
        Coincides (Arith.mean s.value.values) x)) ∧
    (∀ (site : CallSite) (s : Placed (Series Float)) (rate : Placed Float),
      s.value.pointReturns ≠ [] → (∀ y ∈ s.value.pointReturns.values, (y == x) = true) →
      (Coincides (Arith.mean s.value.pointReturns.values) x →
        RefusesDivision (sharpeRatio.apply site (s, rate, ()))) ∧
      (s.value.pointReturns.length < 2 ^ 53 →
        RefusesDivision (sharpeRatio.apply site (s, rate, ())) →
        Coincides (Arith.mean s.value.pointReturns.values) x)) ∧
    (∀ mean : Float, (mean == x) = true → Coincides mean x) ∧
    ∀ (xs : List Float) (M e : ℤ), xs ≠ [] → (∀ y ∈ xs, (y == x) = true) →
      Holds x (M * 2 ^ e) → -1074 ≤ e → e ≤ 971 → xs.length < 2 ^ 53 →
      xs.length * M.natAbs < 2 ^ 53 → (Arith.mean xs == x) = true := by
  obtain ⟨q, hq⟩ := exists_holds hx
  refine ⟨fun site s hlength hs => ?_, fun site s rate hne hs => ?_,
    fun mean hmean => coincides_of_holds hq (hq.of_beq hmean),
    fun xs M e hne hxs hvalue hge hle hlength hM => ?_⟩
  · have hne : s.value.values ≠ [] :=
      List.ne_nil_of_length_pos (by rw [Series.values, List.length_map]; omega)
    rw [refusesDivision_rSquared_iff hlength]
    exact isZero_sumOfSquares_iff hne hq fun y hy => hq.of_beq (hs y hy)
  · have hreturns : ∀ y ∈ s.value.pointReturns.values, Holds y q :=
      fun y hy => hq.of_beq (hs y hy)
    rw [refusesDivision_sharpeRatio_iff hne]
    refine ⟨isZero_rootMeanSquare hq hreturns, fun hlength => ?_⟩
    exact coincides_of_isZero_rootMeanSquare (mt List.map_eq_nil_iff.mp hne) hq hreturns
      (by rwa [Series.values, List.length_map])
  · have hdouble : ∀ k ≤ xs.length, IsDouble (k * (M * 2 ^ e)) := by
      intro k hk
      have hfits : (k * M : ℤ).natAbs < 2 ^ 53 := by
        rw [Int.natAbs_mul, Int.natAbs_natCast]
        exact (Nat.mul_le_mul_right _ hk).trans_lt hM
      have hmultiple := isDouble_mul_two_zpow hfits hge hle
      push_cast at hmultiple
      rwa [mul_assoc] at hmultiple
    have hmean := holds_mean hne (fun y hy => hvalue.of_beq (hxs y hy)) hdouble hlength
    exact (hmean.beq_iff hvalue).mpr rfl

/-- A call site in a formula without indicators. -/
def bareSite (name : String) : CallSite := ⟨name, fun _ _ => .error .openPlace⟩

/-- Three points with the value three. -/
def threes : Series Float :=
  [(⟨1⟩, Nat.toFloat 3), (⟨2⟩, Nat.toFloat 3), (⟨3⟩, Nat.toFloat 3)]

/-- Values that double from point to point. -/
def doubling : Series Float := [(⟨1⟩, 1.0), (⟨2⟩, 2.0), (⟨3⟩, 4.0)]

/-- Three equal values of which the computed mean is exact are refused. -/
theorem equal_values_refused_three :
    (Arith.mean threes.values == Nat.toFloat 3) = true ∧
      RefusesDivision (rSquared.apply (bareSite "R_SQUARED") (⟨threes, 10⟩, ())) ∧
      RefusesDivision
        (sharpeRatio.apply (bareSite "SHARPE_RATIO") (⟨doubling, 13⟩, ⟨0.5, 16⟩, ())) ∧
      Coincides (Arith.mean doubling.pointReturns.values) 1.0 := by
  have hthree : Holds (Nat.toFloat 3) ((3 : ℤ) * 2 ^ (0 : ℤ)) := by
    have hnat := holds_ofNat (n := 3) (by norm_num)
    norm_num at hnat ⊢
    exact hnat
  have hequal : ∀ y ∈ threes.values, (y == Nat.toFloat 3) = true := by decide +kernel
  obtain ⟨hshare, -, hcoincides, hmean⟩ := equal_values_refused hthree.isFinite
  have hmeets := hmean threes.values 3 0 (List.cons_ne_nil _ _) hequal hthree (by norm_num)
    (by norm_num) (by decide) (by decide)
  have hone : (1.0 : Float).isFinite = true := by decide +kernel
  obtain ⟨-, hratio, -, -⟩ := equal_values_refused hone
  have hreturns : doubling.pointReturns ≠ [] := List.ne_nil_of_length_pos (by decide +kernel)
  obtain ⟨hrefused, hexact⟩ := hratio (bareSite "SHARPE_RATIO") ⟨doubling, 13⟩ ⟨0.5, 16⟩ hreturns
    (by decide +kernel)
  have hdoubling := hrefused (by unfold Coincides; decide +kernel)
  exact ⟨hmeets, (hshare _ ⟨threes, 10⟩ (by decide) hequal).mpr (hcoincides _ hmeets), hdoubling,
    hexact (by decide +kernel) hdoubling⟩

/-- Three values of one tenth, of which the computed mean is the next double. -/
def tenths : Series Float := [(⟨1⟩, 0.1), (⟨2⟩, 0.1), (⟨3⟩, 0.1)]

/-- Values that grow by a tenth of themselves. -/
def growing : Series Float := [(⟨1⟩, 10000.0), (⟨2⟩, 11000.0), (⟨3⟩, 12100.0), (⟨4⟩, 13310.0)]

/-- Equal values and equal returns of one tenth are not refused. -/
theorem not_equal_values_refused :
    (¬∀ (site : CallSite) (s : Placed (Series Float)) (x : Float), x.isFinite = true →
      2 ≤ s.value.length → (∀ y ∈ s.value.values, (y == x) = true) →
      RefusesDivision (rSquared.apply site (s, ()))) ∧
    ¬∀ (site : CallSite) (s : Placed (Series Float)) (rate : Placed Float) (x : Float),
      x.isFinite = true → s.value.pointReturns ≠ [] →
      (∀ y ∈ s.value.pointReturns.values, (y == x) = true) →
      RefusesDivision (sharpeRatio.apply site (s, rate, ())) := by
  constructor
  · intro hrefused
    have hzero := (refusesDivision_rSquared_iff (by decide)).mp
      (hrefused (bareSite "R_SQUARED") ⟨tenths, 10⟩ 0.1 (by decide +kernel) (by decide)
        (by decide +kernel))
    revert hzero
    decide +kernel
  · intro hrefused
    have hne : growing.pointReturns ≠ [] := List.ne_nil_of_length_pos (by decide +kernel)
    have hzero := (refusesDivision_sharpeRatio_iff hne).mp
      (hrefused (bareSite "SHARPE_RATIO") ⟨growing, 13⟩ ⟨0.0, 16⟩ 0.1 (by decide +kernel) hne
        (by decide +kernel))
    revert hzero
    decide +kernel

end Function

end IndicatorFormula
