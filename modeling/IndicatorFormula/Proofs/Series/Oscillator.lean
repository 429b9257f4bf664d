import IndicatorFormula.Proofs.Series.Covariation
import IndicatorFormula.Series.Window

/-!
# The place of a value in its trailing range

The stochastic oscillator measures how far a value has come from the smallest to the largest
value of the window that ends with it. The place depends on the window through these two alone.
Another unit moves the value and both ends of the range together, so that the place stays or,
where the order is turned, is counted from the other end.
-/

namespace IndicatorFormula.Series

open Arith

section Between

variable {K : Type} [Field K] [LinearOrder K] {low high x : K}

/-- How much of the way from one value to another is behind a third, out of a hundred. It is half
of the way if there is none. -/
def placeBetween (low high x : K) : K :=
  if high = low then 50 else (x - low) / (high - low) * 100

theorem placeBetween_self (x y : K) : placeBetween y y x = 50 := if_pos rfl

theorem placeBetween_of_ne (h : high ≠ low) :
    placeBetween low high x = (x - low) / (high - low) * 100 := if_neg h

variable [IsStrictOrderedRing K]

/-- A value inside the range has a place between 0 and 100. -/
theorem placeBetween_mem (hlow : low ≤ x) (hhigh : x ≤ high) :
    0 ≤ placeBetween low high x ∧ placeBetween low high x ≤ 100 := by
  by_cases h : high = low
  · subst h
    rw [placeBetween_self]
    norm_num
  · have hspread : 0 ≤ high - low := sub_nonneg.mpr (hlow.trans hhigh)
    have hnonneg : 0 ≤ (x - low) / (high - low) := div_nonneg (sub_nonneg.mpr hlow) hspread
    have hle : (x - low) / (high - low) ≤ 1 :=
      div_le_one_of_le₀ (sub_le_sub_right hhigh low) hspread
    rw [placeBetween_of_ne h]
    constructor <;> linarith

/-- Only the highest value is at 100. -/
theorem placeBetween_eq_hundred_iff (h : high ≠ low) :
    placeBetween low high x = 100 ↔ x = high := by
  have hspread : high - low ≠ 0 := sub_ne_zero.mpr h
  rw [placeBetween_of_ne h, mul_eq_right₀ (by norm_num), div_eq_one_iff_eq hspread, sub_left_inj]

/-- Only the lowest value is at 0. -/
theorem placeBetween_eq_zero_iff (h : high ≠ low) : placeBetween low high x = 0 ↔ x = low := by
  have hspread : high - low ≠ 0 := sub_ne_zero.mpr h
  have hhundred : (100 : K) ≠ 0 := by norm_num
  rw [placeBetween_of_ne h, mul_eq_zero, or_iff_left hhundred, div_eq_zero_iff,
    or_iff_left hspread, sub_eq_zero]

/-- Places do not change under an affine map of value and range. -/
theorem placeBetween_affine {c : K} (hc : c ≠ 0) (d : K) :
    placeBetween (c * low + d) (c * high + d) (c * x + d) = placeBetween low high x := by
  by_cases h : high = low
  · rw [h, placeBetween_self, placeBetween_self]
  · have hends : c * high + d ≠ c * low + d := by simpa [hc] using h
    rw [placeBetween_of_ne h, placeBetween_of_ne hends, add_sub_add_right_eq_sub,
      add_sub_add_right_eq_sub, ← mul_sub, ← mul_sub, mul_div_mul_left _ _ hc]

/-- Counted from the other end the place is what was missing. -/
theorem placeBetween_swap (low high x : K) :
    placeBetween high low x = 100 - placeBetween low high x := by
  by_cases h : high = low
  · rw [h, placeBetween_self]
    norm_num
  · have hspread : high - low ≠ 0 := sub_ne_zero.mpr h
    have hspread' : low - high ≠ 0 := sub_ne_zero.mpr (Ne.symm h)
    rw [placeBetween_of_ne h, placeBetween_of_ne (Ne.symm h)]
    field_simp
    ring

end Between

section Window

variable {K : Type} [Field K] [LinearOrder K] {window : List K} {low high : K}

/-- The place of a value between the smallest and the largest of a row. -/
def placeIn (window : List K) (x : K) : K :=
  placeBetween (window.min?.getD x) (window.max?.getD x) x

theorem placeIn_eq (h : HasRange window low high) (x : K) :
    placeIn window x = placeBetween low high x := by
  rw [placeIn, h.smallest, h.largest, Option.getD_some, Option.getD_some]

/-- Rescaling keeps the place in a window, or mirrors it. -/
theorem placeIn_rescaled [IsStrictOrderedRing K] (h : window ≠ []) (x d : K) {c : K} :
    (0 < c → placeIn (window.map fun y => c * y + d) (c * x + d) = placeIn window x) ∧
      (c < 0 → placeIn (window.map fun y => c * y + d) (c * x + d) = 100 - placeIn window x) := by
  obtain ⟨low, high, hrange⟩ := exists_hasRange h
  refine ⟨fun hc => ?_, fun hc => ?_⟩
  · have hmono : Monotone fun y => c * y + d := fun y z hyz =>
      add_le_add_left (mul_le_mul_of_nonneg_left hyz hc.le) d
    rw [placeIn_eq (hrange.map_monotone hmono), placeBetween_affine hc.ne', placeIn_eq hrange]
  · have hanti : Antitone fun y => c * y + d := fun y z hyz =>
      add_le_add_left (mul_le_mul_of_nonpos_left hyz hc.le) d
    rw [placeIn_eq (hrange.map_antitone hanti), placeBetween_affine hc.ne, placeBetween_swap,
      placeIn_eq hrange]

variable [HasRoot K]

/-- The lowest value of a window is its minimum. -/
theorem lowest?_eq (window : List K) : lowest? window = window.min? := by
  have hfinite : window.all Arith.isFinite = true := List.all_eq_true.mpr fun _ _ => rfl
  rw [lowest?, if_pos hfinite, minimum?_eq]

/-- The highest value of a window is its maximum. -/
theorem highest?_eq (window : List K) : highest? window = window.max? := by
  have hfinite : window.all Arith.isFinite = true := List.all_eq_true.mpr fun _ _ => rfl
  rw [highest?, if_pos hfinite, maximum?_eq]

/-- In a window that has a value every place is defined. -/
theorem placeWithin_eq (h : window ≠ []) (x : K) :
    placeWithin window x = some (placeIn window x) := by
  obtain ⟨low, high, hrange⟩ := exists_hasRange h
  have hfifty : (Arith.ofNat 50 : K) = 50 := Nat.cast_ofNat
  have hhundred : (Arith.hundred : K) = 100 := Nat.cast_ofNat
  rw [placeIn_eq hrange, placeWithin, lowest?_eq, highest?_eq, hrange.smallest, hrange.largest]
  simp only [Option.bind_eq_bind, Option.bind_some, hfifty, hhundred, isZero_iff]
  by_cases hflat : high = low
  · rw [if_pos (sub_eq_zero.mpr hflat), placeBetween, if_pos hflat]
  · rw [if_neg (sub_ne_zero.mpr hflat), placeBetween_of_ne hflat]

end Window

section Oscillator

attribute [local instance (50)] Arith.toAdd Arith.toSub Arith.toMul Arith.toDiv

/-- What the place of a value in a window is. -/
structure IsPlace (window : List ℚ) (x place : ℚ) : Prop where
  /-- The value is the last one of the window. -/
  last : window.getLast? = some x
  /-- No place lies below the range. -/
  nonneg : 0 ≤ place
  /-- No place lies above the range. -/
  le_hundred : place ≤ 100
  /-- In a window without a range it is the middle. -/
  flat : IsConstant window → place = 50
  /-- In a window with a range it is the share of the range that lies below the value. -/
  varied : ∀ low high, HasRange window low high → low ≠ high →
    place = (x - low) / (high - low) * 100
  /-- It is a hundred for the largest value of such a window alone. -/
  top : ¬IsConstant window → (place = 100 ↔ ∀ y ∈ window, y ≤ x)
  /-- It is zero for the smallest value of such a window alone. -/
  bottom : ¬IsConstant window → (place = 0 ↔ ∀ y ∈ window, x ≤ y)

variable {window : List ℚ} {x : ℚ} {s : Series ℚ} {w : ℕ}

/-- The last value of a window has its place in it. -/
theorem isPlace_placeIn (h : window.getLast? = some x) : IsPlace window x (placeIn window x) := by
  have hx : x ∈ window := List.mem_of_getLast? h
  obtain ⟨low, high, hrange⟩ := exists_hasRange (List.ne_nil_of_mem hx)
  have hmem := placeBetween_mem (hrange.le hx) (hrange.ge hx)
  rw [placeIn_eq hrange]
  refine ⟨h, hmem.1, hmem.2, fun hflat => ?_, fun low' high' hrange' hne => ?_,
    fun hvaried => ?_, fun hvaried => ?_⟩
  · rw [hrange.eq_iff.mpr hflat, placeBetween_self]
  · rw [← placeIn_eq hrange, placeIn_eq hrange', placeBetween_of_ne hne.symm]
  · rw [placeBetween_eq_hundred_iff (mt hrange.eq_iff.mp hvaried)]
    refine ⟨?_, fun hall => le_antisymm (hrange.ge hx) (hall high hrange.high_mem)⟩
    rintro rfl y hy
    exact hrange.ge hy
  · rw [placeBetween_eq_zero_iff (mt hrange.eq_iff.mp hvaried)]
    refine ⟨?_, fun hall => le_antisymm (hall low hrange.low_mem) (hrange.le hx)⟩
    rintro rfl y hy
    exact hrange.le hy

/-- The points of the oscillator when all windows have values. -/
def oscillation (w : ℕ) (s : Series ℚ) : Series ℚ :=
  ((windowEnds w s).zip (windows w s.values)).map fun p => (p.1.1, placeIn p.2 p.1.2)

/-- A window of a positive length is not empty. -/
theorem ne_nil_of_mem_windows (hw : 0 < w) (hn : w ≤ s.length) (h : window ∈ windows w s.values) :
    window ≠ [] := by
  have hlength := length_of_mem_windows (by rwa [values, List.length_map]) h
  exact List.ne_nil_of_length_pos (hlength ▸ hw)

/-- For a window that fits the oscillator gives the place of every last value. -/
theorem stochastic_eq (hw : 0 < w) (hn : w ≤ s.length) :
    s.stochastic w = .ok ((oscillation w s).map fun p => (p.1, some p.2)) := by
  rw [stochastic, if_neg (by omega), oscillation, List.map_map]
  refine congrArg Except.ok (List.map_congr_left fun p hp => ?_)
  have hne := ne_nil_of_mem_windows hw hn (List.of_mem_zip hp).2
  exact congrArg (Prod.mk p.1.1) (placeWithin_eq hne p.1.2)

theorem windowEnds_eq (hw : 0 < w) (s : Series ℚ) : windowEnds w s = s.drop (w - 1) := by
  rw [windowEnds, if_neg hw.ne']

/-- The oscillator has one value for every window. -/
theorem length_oscillation (hw : 0 < w) (hn : w ≤ s.length) :
    (oscillation w s).length = s.length - w + 1 := by
  have hlength := length_drop_eq_length_windows Prod.snd hw s
  rw [oscillation, windowEnds_eq hw, List.length_map, List.length_zip, values, ← hlength, min_self,
    List.length_drop]
  omega

/-- The oscillator has the dates at which windows end. -/
theorem dates_oscillation (hw : 0 < w) (s : Series ℚ) :
    (oscillation w s).dates = s.dates.drop (w - 1) := by
  have hlength := length_drop_eq_length_windows Prod.snd hw s
  have hfst := congrArg (List.map Prod.fst) (List.map_fst_zip hlength.le)
  rw [List.map_map] at hfst
  rw [dates, oscillation, windowEnds_eq hw, List.map_map, dates, ← List.map_drop]
  exact hfst

/-- The point of a window shows the place of the last value of the window. -/
theorem getElem_oscillation (hw : 0 < w) {k : ℕ} (hk : k < (oscillation w s).length) :
    ∃ x, (s.drop (w - 1))[k]? = some ((oscillation w s)[k].1, x) ∧
      ((s.values.drop k).take w).getLast? = some x ∧
      (oscillation w s)[k].2 = placeIn ((s.values.drop k).take w) x := by
  have hend : k + w - 1 < s.length := by
    simp only [oscillation, windowEnds_eq hw, List.length_map, List.length_zip,
      List.length_drop] at hk
    omega
  have hplace : w - 1 + k = k + w - 1 := by omega
  have hpoint : (oscillation w s)[k] = (s[k + w - 1].1,
      placeIn ((s.values.drop k).take w) s[k + w - 1].2) := by
    simp [oscillation, windowEnds_eq hw, windows, hplace]
  refine ⟨s[k + w - 1].2, ?_, ?_, by rw [hpoint]⟩
  · rw [List.getElem?_drop, hplace, List.getElem?_eq_getElem hend, hpoint]
  · rw [List.getLast?_take, if_neg hw.ne', List.getElem?_drop, ← Nat.add_sub_assoc hw]
    simp [values, hend]

/-- Rescaling keeps the oscillator, or mirrors it. -/
theorem oscillation_rescaled (hw : 0 < w) (hn : w ≤ s.length) {c : ℚ} (d : ℚ) :
    (0 < c → oscillation w (s.rescaled c d) = oscillation w s) ∧
      (c < 0 → oscillation w (s.rescaled c d) =
        (oscillation w s).map fun p => (p.1, 100 - p.2)) := by
  have hpoints : oscillation w (s.rescaled c d) =
      ((windowEnds w s).zip (windows w s.values)).map fun p =>
        (p.1.1, placeIn (p.2.map fun y => c * y + d) (c * p.1.2 + d)) := by
    rw [oscillation, windowEnds_eq hw, windowEnds_eq hw, values_rescaled, windows_map, rescaled,
      ← List.map_drop, List.zip_map, List.map_map]
    rfl
  rw [hpoints, oscillation, List.map_map]
  refine ⟨fun hc => List.map_congr_left fun p hp => ?_,
    fun hc => List.map_congr_left fun p hp => ?_⟩
  all_goals have hne := ne_nil_of_mem_windows hw hn (List.of_mem_zip hp).2
  · rw [(placeIn_rescaled hne p.1.2 d).1 hc]
  · exact congrArg (Prod.mk p.1.1) ((placeIn_rescaled hne p.1.2 d).2 hc)

/-- The oscillator has a point for each window, dated by the last value of the window, and it is
the place of that value in the range of the window. Another unit keeps the places if it keeps the
order of the values and turns them round if it turns the order. A series that fills no window has
too few points. -/
theorem stochastic_isPlace (hw : 1 ≤ w) :
    (s.length < w → ∃ e, s.stochastic w = .error e ∧ e.category = .insufficient) ∧
    (w ≤ s.length → ∃ t : Series ℚ, s.stochastic w = .ok (t.map fun p => (p.1, some p.2)) ∧
      t.length = s.length - w + 1 ∧ t.dates = s.dates.drop (w - 1) ∧
      (∀ k (hk : k < t.length), ∃ x, (s.drop (w - 1))[k]? = some (t[k].1, x) ∧
        IsPlace ((s.values.drop k).take w) x t[k].2) ∧
      ∀ c d, (0 < c → (s.rescaled c d).stochastic w = s.stochastic w) ∧
        (c < 0 → (s.rescaled c d).stochastic w =
          .ok (t.map fun p => (p.1, some (100 - p.2))))) := by
  refine ⟨fun hn => ⟨_, if_pos hn, rfl⟩, fun hn => ?_⟩
  refine ⟨oscillation w s, stochastic_eq hw hn, length_oscillation hw hn, dates_oscillation hw s,
    fun k hk => ?_, fun c d => ?_⟩
  · obtain ⟨x, hpoint, hlast, hplace⟩ := getElem_oscillation hw hk
    exact ⟨x, hpoint, hplace ▸ isPlace_placeIn hlast⟩
  · have hrescaled : w ≤ (s.rescaled c d).length := by rwa [length_rescaled]
    obtain ⟨hsame, hturned⟩ := oscillation_rescaled hw hn (c := c) d
    rw [stochastic_eq hw hrescaled, stochastic_eq hw hn]
    refine ⟨fun hc => by rw [hsame hc], fun hc => ?_⟩
    rw [hturned hc, List.map_map]
    rfl

/-- Values that rise, stay for three dates and fall. -/
def plateau : Series ℚ := [(⟨1⟩, 1), (⟨2⟩, 3), (⟨3⟩, 3), (⟨4⟩, 3), (⟨7⟩, 2)]

/-- A series with a plateau: its oscillator, two rescalings, and a window that is too long. -/
theorem stochastic_isPlace_plateau :
    1 ≤ 2 ∧ 2 ≤ plateau.length ∧
      plateau.stochastic 2 =
        .ok [(⟨2⟩, some 100), (⟨3⟩, some 50), (⟨4⟩, some 50), (⟨7⟩, some 0)] ∧
      (plateau.rescaled 3 1).stochastic 2 = plateau.stochastic 2 ∧
      (plateau.rescaled (-2) 1).stochastic 2 =
        .ok [(⟨2⟩, some 0), (⟨3⟩, some 50), (⟨4⟩, some 50), (⟨7⟩, some 100)] ∧
      1 ≤ 6 ∧ ∃ e, plateau.stochastic 6 = .error e ∧ e.category = .insufficient := by
  have hlength : 2 ≤ plateau.length := by decide
  obtain ⟨-, hfull⟩ := stochastic_isPlace (s := plateau) (one_le_two : 1 ≤ 2)
  obtain ⟨hshort, -⟩ := stochastic_isPlace (s := plateau) (by decide : 1 ≤ 6)
  obtain ⟨t, ht, hcount, hdates, hplaces, hunit⟩ := hfull hlength
  match t, hcount with
  | [(a, p), (b, q), (c, r), (d, u)], _ =>
    have hends : [a, b, c, d] = [⟨2⟩, ⟨3⟩, ⟨4⟩, ⟨7⟩] := hdates
    obtain ⟨rfl, rfl, rfl, rfl⟩ : a = ⟨2⟩ ∧ b = ⟨3⟩ ∧ c = ⟨4⟩ ∧ d = ⟨7⟩ := by simpa using hends
    obtain ⟨_, hfirst, hrise⟩ := hplaces 0 (by simp)
    obtain ⟨_, hsecond, hstay⟩ := hplaces 1 (by simp)
    obtain ⟨_, hthird, hstay'⟩ := hplaces 2 (by simp)
    obtain ⟨_, hfourth, hfall⟩ := hplaces 3 (by simp)
    cases hfirst
    cases hsecond
    cases hthird
    cases hfourth
    have hconstant : IsConstant [(3 : ℚ), 3] := by simp [IsConstant]
    have hrising : ¬IsConstant [(1 : ℚ), 3] := by simp [IsConstant]
    have hfalling : ¬IsConstant [(3 : ℚ), 2] := by simp [IsConstant]
    obtain rfl : p = 100 := (hrise.top hrising).mpr (by decide)
    obtain rfl : q = 50 := hstay.flat hconstant
    obtain rfl : r = 50 := hstay'.flat hconstant
    obtain rfl : u = 0 := (hfall.bottom hfalling).mpr (by decide)
    refine ⟨one_le_two, hlength, ht, (hunit 3 1).1 (by norm_num), ?_, by decide,
      hshort (by decide)⟩
    rw [(hunit (-2) 1).2 (by norm_num)]
    norm_num

end Oscillator

end IndicatorFormula.Series
