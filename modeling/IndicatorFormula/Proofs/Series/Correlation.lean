import IndicatorFormula.Proofs.Series.Alignment
import IndicatorFormula.Proofs.Series.Covariation
import IndicatorFormula.Series.Correlation

/-!
# Correlation window by window

What two series have in common is one row of dated pairs, and the point of a rolling correlation is
the correlation of the pairs of its window. That is the covariation of the two sides over the root
of the product of their own, which cannot exceed one by Cauchy and Schwarz; so it does not depend
on which side comes first nor on the unit of either.
-/

namespace IndicatorFormula.Series

open Arith

section Common

variable {α : Type} {left right : Series α} {d : Date} {x y : α}

/-- The dates that two series share, each with both values, in the order of the first series. -/
def commonRows (left right : Series α) : Paired α :=
  left.filterMap fun p => (right.lookup p.1).map fun y => (p.1, p.2, y)

/-- The values of the first series. -/
def lefts (rows : Paired α) : List α := rows.map fun r => r.2.1

/-- The values of the second series. -/
def rights (rows : Paired α) : List α := rows.map fun r => r.2.2

theorem length_lefts (rows : Paired α) : (lefts rows).length = (rights rows).length := by
  rw [lefts, rights, List.length_map, List.length_map]

/-- A common row holds the two values of a date that both series have. -/
theorem mem_commonRows (hright : right.Pairwise fun p q => p.1 < q.1) :
    (d, x, y) ∈ commonRows left right ↔ (d, x) ∈ left ∧ (d, y) ∈ right := by
  simp only [commonRows, List.mem_filterMap, Option.map_eq_some_iff, Prod.mk.injEq]
  constructor
  · rintro ⟨⟨d, x⟩, hx, y, hy, rfl, rfl, rfl⟩
    exact ⟨hx, mem_of_lookup hy⟩
  · rintro ⟨hx, hy⟩
    exact ⟨(d, x), hx, y, (lookup_eq_some_iff_mem hright).mpr hy, rfl, rfl, rfl⟩

/-- The common rows are in order. -/
theorem commonRows_increasing (hleft : left.Pairwise fun p q => p.1 < q.1) (right : Series α) :
    (commonRows left right).Pairwise fun p q => p.1 < q.1 := by
  refine List.pairwise_map.mp ((List.pairwise_map.mpr hleft).sublist ?_)
  apply map_filterMap_sublist
  intro p r hr
  obtain ⟨y, -, rfl⟩ := Option.map_eq_some_iff.mp hr
  rfl

/-- The other way round the same dates are shared. -/
theorem commonRows_swap (hleft : left.Pairwise fun p q => p.1 < q.1)
    (hright : right.Pairwise fun p q => p.1 < q.1) :
    commonRows right left = (commonRows left right).map fun r => (r.1, r.2.swap) := by
  refine eq_of_increasing (commonRows_increasing hright left) ?_ ?_
  · exact List.pairwise_map.mpr (commonRows_increasing hleft right)
  · rintro ⟨d, y, x⟩
    rw [mem_commonRows hleft, and_comm, ← mem_commonRows hright]
    constructor
    · intro hr
      exact List.mem_map.mpr ⟨(d, x, y), hr, rfl⟩
    · intro hr
      obtain ⟨⟨d', x', y'⟩, hr', heq⟩ := List.mem_map.mp hr
      cases heq
      exact hr'

/-- A series has the same value twice in common with itself. -/
theorem eq_of_mem_commonRows_self (hleft : left.Pairwise fun p q => p.1 < q.1)
    (hr : (d, x, y) ∈ commonRows left left) : x = y := by
  obtain ⟨hx, hy⟩ := (mem_commonRows hleft).mp hr
  rw [← lookup_eq_some_iff_mem hleft] at hx hy
  exact Option.some.inj (hx.symm.trans hy)

theorem commonRows_rescaled [Arith α] (left right : Series α) (c d : α) :
    commonRows (left.rescaled c d) right =
      (commonRows left right).map fun r => (r.1, c * r.2.1 + d, r.2.2) := by
  simp [commonRows, rescaled, List.filterMap_map, List.map_filterMap, Function.comp_def]

/-- A paired row is a row of two cells. -/
theorem mem_pairedRows {f : Frame α} : (d, x, y) ∈ pairedRows f ↔ (d, [x, y]) ∈ f.rows := by
  simp only [pairedRows, List.mem_filterMap]
  constructor
  · rintro ⟨⟨d, cells⟩, hr, h⟩
    split at h
    · cases h
      simp_all
    · cases h
  · intro hr
    exact ⟨(d, [x, y]), hr, rfl⟩

/-- The filled rows of two series side by side are what the two have in common. -/
theorem correlateWith_eq [Arith α] (hleft : left.Pairwise fun p q => p.1 < q.1)
    (hright : right.Pairwise fun p q => p.1 < q.1) (w : ℕ) :
    correlateWith w left right = trailingCorrelation w (commonRows left right) := by
  have hne : ([("left", left), ("right", right)] : Family α) ≠ [] := List.cons_ne_nil _ _
  have hincreasing : ∀ entry ∈ ([("left", left), ("right", right)] : Family α),
      entry.2.Pairwise fun p q => p.1 < q.1 := by simpa using ⟨hleft, hright⟩
  have hlays := Family.laysOut hincreasing
  rw [correlateWith, Family.align_eq hne]
  refine congrArg (trailingCorrelation w)
    (eq_of_increasing ?_ (commonRows_increasing hleft right) ?_)
  · exact List.pairwise_map.mp
      ((hlays.joint hne).increasing.sublist (dates_pairedRows_sublist _))
  · rintro ⟨d, x, y⟩
    rw [mem_pairedRows, mem_commonRows hright, Frame.mem_rows_joint, ← lookup_eq_some_iff_mem hleft,
      ← lookup_eq_some_iff_mem hright]
    simp [Family.cells, Family.mem_allDates]
    intro hx _
    exact .inl (mem_dates_of_lookup hx)

end Common

section Windows

variable {α : Type} {rows : Paired α} {w : ℕ}

variable [Arith α]

/-- A rolling correlation has a point for each window, dated by its last row. -/
theorem trailingCorrelation_spec (hw : 0 < w) (hn : w ≤ rows.length) :
    ∃ t, trailingCorrelation w rows = .ok t ∧ t.length = rows.length - w + 1 ∧
      t.dates = (rows.drop (w - 1)).map Prod.fst ∧
      ∀ k (hk : k < t.length),
        t[k].2 = correlation (lefts ((rows.drop k).take w)) (rights ((rows.drop k).take w)) := by
  have hlength := (length_drop_eq_length_windows Prod.snd hw rows).le
  refine ⟨_, (if_neg (by omega)).trans (if_neg (by omega)), ?_, ?_, fun k hk => ?_⟩
  · rw [List.length_map, List.length_zip, min_eq_left hlength, List.length_drop]
    omega
  · have hdates := congrArg (List.map Prod.fst) (List.map_fst_zip hlength)
    rw [List.map_map] at hdates
    rw [dates, List.map_map]
    exact hdates
  · simp [windows, lefts, rights, Function.comp_def]

/-- What changes the correlation of every window alike changes the rolling correlation so. -/
theorem trailingCorrelation_map (w : ℕ) (rows : Paired α) {f : α × α → α × α} {φ : α → α}
    (h : ∀ window : List (α × α),
      correlation ((window.map f).map Prod.fst) ((window.map f).map Prod.snd) =
        φ (correlation (window.map Prod.fst) (window.map Prod.snd))) :
    trailingCorrelation w (rows.map fun r => (r.1, f r.2)) =
      (trailingCorrelation w rows).map fun t => t.map fun p => (p.1, φ p.2) := by
  have hvalues : (rows.map fun r => (r.1, f r.2)).map Prod.snd = (rows.map Prod.snd).map f := by
    simp [Function.comp_def]
  unfold trailingCorrelation
  rw [List.length_map]
  split
  · rfl
  · split
    · rfl
    · refine congrArg Except.ok ?_
      rw [hvalues, windows_map, ← List.map_drop, List.zip_map, List.map_map]
      refine (List.map_congr_left fun p _ => ?_).trans List.map_map.symm
      exact congrArg (Prod.mk p.1.1) (h p.2)

end Windows

section Correlation

attribute [local instance (50)] Arith.toAdd Arith.toSub Arith.toMul Arith.toDiv

variable {xs ys : List ℝ}

/-- Exact values are flat just when they are the same. -/
theorem isFlat_iff {K : Type} [Field K] [LinearOrder K] [IsStrictOrderedRing K] [HasRoot K]
    {xs : List K} : isFlat xs = true ↔ xs ≠ [] ∧ IsConstant xs := by
  have hnan : xs.any Arith.isNaN = false := List.any_eq_false.mpr fun _ _ => Bool.false_ne_true
  rw [isFlat, hnan, maximum?_eq, minimum?_eq]
  by_cases hne : xs = []
  · simp [hne]
  · obtain ⟨low, high, hrange⟩ := exists_hasRange hne
    simp [hne, hrange.smallest, hrange.largest, isZero_iff, sub_eq_zero, hrange.eq_iff]

/-- No covariation exceeds the root of the product of those of the two sides. -/
theorem abs_covariation_div_le_one (h : xs.length = ys.length) :
    |covariation xs ys / √(covariation xs xs * covariation ys ys)| ≤ 1 := by
  have hroot := Real.sqrt_nonneg (covariation xs xs * covariation ys ys)
  rw [abs_div, abs_of_nonneg hroot]
  exact div_le_one_of_le₀ (Real.abs_le_sqrt (covariation_sq_le h)) hroot

/-- The correlation is the covariation in units of those of the two sides. A flat side has none,
so that the quotient is zero there as well. -/
theorem correlation_eq (h : xs.length = ys.length) :
    correlation xs ys = covariation xs ys / √(covariation xs xs * covariation ys ys) := by
  by_cases hflat : isFlat xs || isFlat ys
  · have hzero : covariation xs xs * covariation ys ys = 0 := by
      rw [mul_eq_zero, covariation_self_eq_zero_iff, covariation_self_eq_zero_iff]
      rcases Bool.or_eq_true_iff.mp hflat with hflat | hflat
      · exact .inl (isFlat_iff.mp hflat).2
      · exact .inr (isFlat_iff.mp hflat).2
    rw [correlation, if_pos hflat, zero_eq, hzero, Real.sqrt_zero, div_zero]
  · obtain ⟨hlow, hhigh⟩ := abs_le.mp (abs_covariation_div_le_one h)
    rw [correlation, if_neg hflat, zero_eq, one_eq]
    refine clamp_eq_self (le_of_eq_of_le ?_ hlow) hhigh
    exact zero_sub 1

theorem correlation_comm (h : xs.length = ys.length) : correlation xs ys = correlation ys xs := by
  rw [correlation_eq h, correlation_eq h.symm, covariation_comm, mul_comm]

/-- A row that varies correlates fully with itself. -/
theorem correlation_self (h : ¬IsConstant xs) : correlation xs xs = 1 := by
  have hpos := covariation_self_pos h
  rw [correlation_eq rfl, Real.sqrt_mul_self hpos.le, div_self hpos.ne']

/-- A correlation keeps its size in another unit, and its sign unless the unit turns the order. -/
theorem correlation_affine (h : xs.length = ys.length) (c d : ℝ) :
    correlation (xs.map fun x => c * x + d) ys = c / |c| * correlation xs ys := by
  have hself : covariation (xs.map fun x => c * x + d) (xs.map fun x => c * x + d) =
      c ^ 2 * covariation xs xs := covariation_self_affine xs c d
  rw [correlation_eq (by rwa [List.length_map]), correlation_eq h, covariation_affine, hself,
    mul_assoc, Real.sqrt_mul (sq_nonneg c), Real.sqrt_sq_eq_abs, mul_div_mul_comm]

/-- What the point of a window is, given the two sides of the window. -/
structure IsCorrelation (xs ys : List ℝ) (r : ℝ) : Prop where
  /-- A side that does not vary is correlated with nothing. -/
  flat : IsConstant xs ∨ IsConstant ys → r = 0
  /-- The denominator does not vanish if both sides vary. -/
  denominator : ¬IsConstant xs → ¬IsConstant ys →
    √(dot (deviations xs) (deviations xs) * dot (deviations ys) (deviations ys)) ≠ 0
  /-- The products of distances obey the inequality of Cauchy and Schwarz. -/
  bounded : dot (deviations xs) (deviations ys) ^ 2 ≤
    dot (deviations xs) (deviations xs) * dot (deviations ys) (deviations ys)
  /-- The quotient needs no clamp if both sides vary. -/
  varied : ¬IsConstant xs → ¬IsConstant ys → r = dot (deviations xs) (deviations ys) /
    √(dot (deviations xs) (deviations xs) * dot (deviations ys) (deviations ys))
  /-- It is at least minus one. -/
  low : -1 ≤ r
  /-- It is at most one. -/
  high : r ≤ 1

/-- What is computed of two lists of one length is their correlation. -/
theorem isCorrelation (h : xs.length = ys.length) : IsCorrelation xs ys (correlation xs ys) := by
  obtain ⟨hlow, hhigh⟩ := abs_le.mp (abs_covariation_div_le_one h)
  rw [correlation_eq h]
  refine ⟨fun hflat => ?_, fun hx hy => ?_, covariation_sq_le h, fun _ _ => rfl, hlow, hhigh⟩
  · have hzero : covariation xs xs * covariation ys ys = 0 := by
      rwa [mul_eq_zero, covariation_self_eq_zero_iff, covariation_self_eq_zero_iff]
    rw [hzero, Real.sqrt_zero, div_zero]
  · exact (Real.sqrt_pos.mpr (mul_pos (covariation_self_pos hx) (covariation_self_pos hy))).ne'

variable {left right : Series ℝ} {w : ℕ}

/-- Rolling correlation is symmetric. -/
theorem correlateWith_swap (hleft : left.Pairwise fun p q => p.1 < q.1)
    (hright : right.Pairwise fun p q => p.1 < q.1) (w : ℕ) :
    correlateWith w right left = correlateWith w left right := by
  have hswap (window : List (ℝ × ℝ)) :
      correlation ((window.map Prod.swap).map Prod.fst) ((window.map Prod.swap).map Prod.snd) =
        id (correlation (window.map Prod.fst) (window.map Prod.snd)) := by
    rw [List.map_map, List.map_map]
    exact correlation_comm (by rw [List.length_map, List.length_map])
  have hmap := trailingCorrelation_map w (commonRows left right) hswap
  rw [correlateWith_eq hright hleft, correlateWith_eq hleft hright, commonRows_swap hleft hright,
    hmap]
  cases trailingCorrelation w (commonRows left right) <;> simp [Except.map]

/-- Rescaling one series changes the sign of the correlation at most. -/
theorem correlateWith_rescaled (hleft : left.Pairwise fun p q => p.1 < q.1)
    (hright : right.Pairwise fun p q => p.1 < q.1) (w : ℕ) (c d : ℝ) :
    correlateWith w (left.rescaled c d) right =
      (correlateWith w left right).map fun t => t.map fun p => (p.1, c / |c| * p.2) := by
  have hunit (window : List (ℝ × ℝ)) :
      correlation ((window.map fun p => (c * p.1 + d, p.2)).map Prod.fst)
          ((window.map fun p => (c * p.1 + d, p.2)).map Prod.snd) =
        c / |c| * correlation (window.map Prod.fst) (window.map Prod.snd) := by
    have hlength : (window.map Prod.fst).length = (window.map Prod.snd).length := by
      rw [List.length_map, List.length_map]
    rw [← correlation_affine hlength c d, List.map_map, List.map_map, List.map_map]
    rfl
  have hmap := trailingCorrelation_map w (commonRows left right) hunit
  have hrescaled : (left.rescaled c d).Pairwise fun p q => p.1 < q.1 :=
    List.pairwise_map.mpr hleft
  rw [correlateWith_eq hrescaled hright, correlateWith_eq hleft hright, commonRows_rescaled, hmap]

/-- A rolling correlation of two series has a point for each window of what they have in common,
and the point is the correlation of the two sides of that window alone. It does not matter which
series comes first, a window that varies is fully correlated with itself, and another unit of one
series changes at most the sign. -/
theorem correlateWith_isCorrelation (hleft : left.Pairwise fun p q => p.1 < q.1)
    (hright : right.Pairwise fun p q => p.1 < q.1) (hw : 2 ≤ w)
    (hn : w ≤ (commonRows left right).length) :
    ∃ t, correlateWith w left right = .ok t ∧
      t.length = (commonRows left right).length - w + 1 ∧
      t.dates = ((commonRows left right).drop (w - 1)).map Prod.fst ∧
      (∀ k (hk : k < t.length), ∀ window, window = ((commonRows left right).drop k).take w →
        t[k].2 = correlation (lefts window) (rights window) ∧
        IsCorrelation (lefts window) (rights window) t[k].2 ∧
        (left = right → ¬IsConstant (lefts window) → t[k].2 = 1)) ∧
      correlateWith w right left = .ok t ∧
      ∀ c d, (0 < c → correlateWith w (left.rescaled c d) right = .ok t) ∧
        (c < 0 → correlateWith w (left.rescaled c d) right =
          .ok (t.map fun p => (p.1, -p.2))) := by
  obtain ⟨t, ht, hlength, hdates, hvalues⟩ := trailingCorrelation_spec (by omega) hn
  rw [← correlateWith_eq hleft hright] at ht
  refine ⟨t, ht, hlength, hdates, fun k hk window hwindow => ?_,
    (correlateWith_swap hleft hright w).trans ht, fun c d => ?_⟩
  · subst hwindow
    have hvalue := hvalues k hk
    refine ⟨hvalue, hvalue ▸ isCorrelation (length_lefts _), ?_⟩
    rintro rfl hvaried
    have hsides : rights (((commonRows left left).drop k).take w) =
        lefts (((commonRows left left).drop k).take w) := by
      refine List.map_congr_left fun r hr => ?_
      exact (eq_of_mem_commonRows_self hleft
        (List.mem_of_mem_drop (List.mem_of_mem_take hr))).symm
    rw [hvalue, hsides, correlation_self hvaried]
  · rw [correlateWith_rescaled hleft hright, ht]
    refine ⟨fun hc => ?_, fun hc => ?_⟩
    · rw [abs_of_pos hc, div_self hc.ne']
      simp [Except.map]
    · rw [abs_of_neg hc, div_neg, div_self hc.ne]
      simp [Except.map]

/-- Values on four dates that do not change at the end. -/
def rising : Series ℝ := [(⟨1⟩, -1), (⟨2⟩, 0), (⟨4⟩, 1), (⟨5⟩, 1)]

/-- Values on four dates, three of which the rising values have as well. -/
def falling : Series ℝ := [(⟨1⟩, 1), (⟨3⟩, 1), (⟨4⟩, 0), (⟨5⟩, -1)]

/-- A rising and a falling series: the bound, both orders, a rescaling, and a series with itself. -/
theorem correlateWith_isCorrelation_flat :
    (rising.Pairwise fun p q => p.1 < q.1) ∧ (falling.Pairwise fun p q => p.1 < q.1) ∧
      2 ≤ (commonRows rising falling).length ∧
      (∃ x : ℝ, |x| ≤ 1 ∧ correlateWith 2 rising falling = .ok [(⟨4⟩, x), (⟨5⟩, 0)] ∧
        correlateWith 2 falling rising = .ok [(⟨4⟩, x), (⟨5⟩, 0)] ∧
        correlateWith 2 (rising.rescaled (-3) 1) falling = .ok [(⟨4⟩, -x), (⟨5⟩, -0)]) ∧
      ∃ y z, correlateWith 2 rising rising = .ok [(⟨2⟩, 1), (⟨4⟩, y), (⟨5⟩, z)] := by
  have hrising : rising.Pairwise fun p q => p.1 < q.1 := by decide
  have hfalling : falling.Pairwise fun p q => p.1 < q.1 := by decide
  have hcommon : 2 ≤ (commonRows rising falling).length := by decide
  refine ⟨hrising, hfalling, hcommon, ?_, ?_⟩
  · obtain ⟨t, ht, hlength, hdates, hwindows, hswapped, hunit⟩ :=
      correlateWith_isCorrelation hrising hfalling (le_refl 2) hcommon
    match t, hlength with
    | [(d, x), (e, y)], _ =>
      have hends : [d, e] = [⟨4⟩, ⟨5⟩] := hdates
      obtain ⟨rfl, rfl⟩ : d = ⟨4⟩ ∧ e = ⟨5⟩ := by simpa using hends
      obtain ⟨-, hfirst, -⟩ := hwindows 0 (Nat.zero_lt_succ _) _ rfl
      obtain ⟨-, hlast, -⟩ := hwindows 1 (Nat.lt_succ_self 1) _ rfl
      have hflat : IsConstant (lefts (((commonRows rising falling).drop 1).take 2)) := by
        change IsConstant [(1 : ℝ), 1]
        simp [IsConstant]
      obtain rfl : y = 0 := hlast.flat (.inl hflat)
      exact ⟨x, abs_le.mpr ⟨hfirst.low, hfirst.high⟩, ht, hswapped,
        (hunit (-3) 1).2 (by norm_num)⟩
  · obtain ⟨t, ht, hlength, hdates, hwindows, -⟩ :=
      correlateWith_isCorrelation hrising hrising (le_refl 2) (by decide)
    match t, hlength with
    | [(d, x), (e, y), (f, z)], _ =>
      have hends : [d, e, f] = [⟨2⟩, ⟨4⟩, ⟨5⟩] := hdates
      obtain ⟨rfl, rfl, rfl⟩ : d = ⟨2⟩ ∧ e = ⟨4⟩ ∧ f = ⟨5⟩ := by simpa using hends
      obtain ⟨-, -, hself⟩ := hwindows 0 (Nat.zero_lt_succ _) _ rfl
      have hvaried : ¬IsConstant (lefts (((commonRows rising rising).drop 0).take 2)) := by
        change ¬IsConstant [(-1 : ℝ), 0]
        simp [IsConstant]
      obtain rfl : x = 1 := hself rfl hvaried
      exact ⟨y, z, ht⟩

end Correlation

end IndicatorFormula.Series
