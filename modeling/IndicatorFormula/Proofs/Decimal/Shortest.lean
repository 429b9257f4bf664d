import IndicatorFormula.Decimal.Shortest
import IndicatorFormula.Proofs.Decimal.Nearest

/-!
# Shortest decimals

Seventeen digits are enough: the grid on which a double has that many digits has a point
among the numbers that are rounded to the double. So a shortest decimal is found, and
whichever is found is rounded to the double.
-/

namespace IndicatorFormula.Decimal

/-- The number that a magnitude stands for. -/
def Magnitude.value (m : Magnitude) : ℚ := m.numerator / m.denominator

variable {mantissa : ℕ} {exponent : ℤ} {m : Magnitude}

/-- A magnitude of a mantissa and a binary exponent has their value. -/
theorem Magnitude.value_ofBinary (mantissa : ℕ) (exponent : ℤ) :
    (ofBinary mantissa exponent).value = mantissa * 2 ^ exponent := by
  unfold ofBinary value
  split
  · obtain ⟨n, hn⟩ : ∃ n : ℕ, -exponent = n := ⟨(-exponent).toNat, by omega⟩
    obtain rfl : exponent = -n := by omega
    rw [hn, Int.toNat_natCast, Nat.pow_eq, zpow_neg, zpow_natCast, div_eq_mul_inv]
    push_cast
    rfl
  · obtain ⟨n, rfl⟩ : ∃ n : ℕ, exponent = n := ⟨exponent.toNat, by omega⟩
    rw [Int.toNat_natCast, Nat.pow_eq, zpow_natCast]
    push_cast
    rw [div_one]

/-- Shifting a magnitude multiplies it by a power of ten. -/
theorem Magnitude.value_shift (m : Magnitude) (places : ℤ) :
    (m.shift places).value = m.value * 10 ^ places := by
  unfold shift value
  split
  · obtain ⟨n, hn⟩ : ∃ n : ℕ, -places = n := ⟨(-places).toNat, by omega⟩
    obtain rfl : places = -n := by omega
    rw [hn, Int.toNat_natCast, Nat.pow_eq, zpow_neg, zpow_natCast]
    push_cast
    rw [← div_div, div_eq_mul_inv (_ / _)]
  · obtain ⟨n, rfl⟩ : ∃ n : ℕ, places = n := ⟨places.toNat, by omega⟩
    rw [Int.toNat_natCast, Nat.pow_eq, zpow_natCast]
    push_cast
    rw [mul_div_right_comm]

/-- Shifting keeps the denominator positive. -/
theorem Magnitude.denominator_shift_pos (h : 0 < m.denominator) (places : ℤ) :
    0 < (m.shift places).denominator := by
  unfold shift
  split
  · exact Nat.mul_pos h (Nat.pow_pos (by norm_num))
  · exact h

/-- The number that a grid point stands for. -/
def GridPoint.value (p : GridPoint) : ℚ := p.count * 10 ^ p.step

theorem GridPoint.value_magnitude (p : GridPoint) : p.magnitude.value = p.value := by
  rw [magnitude, Magnitude.value_shift, value, Magnitude.value, Nat.cast_one, div_one]

theorem GridPoint.denominator_pos (p : GridPoint) : 0 < p.magnitude.denominator :=
  Magnitude.denominator_shift_pos Nat.one_pos _

/-- A positive number has its leading digit where its digits are counted to. -/
theorem pow_digitCount_le {n : ℕ} (h : n ≠ 0) : 10 ^ (digitCount n - 1) ≤ n := by
  induction n using Nat.strongRecOn with
  | ind n ih =>
    rw [digitCount, if_neg h, Nat.add_sub_cancel]
    by_cases hsmall : n / 10 = 0
    · rw [hsmall, digitCount, if_pos rfl]
      omega
    · have hle := ih (n / 10) (by omega) hsmall
      have hpos : digitCount (n / 10) ≠ 0 := by
        rw [digitCount, if_neg hsmall]
        omega
      calc 10 ^ digitCount (n / 10) = 10 ^ (digitCount (n / 10) - 1) * 10 := by
            rw [← pow_succ]
            congr 1
            omega
        _ ≤ n := by omega

/-- A number is below ten to the count of its digits. -/
theorem lt_pow_digitCount (n : ℕ) : n < 10 ^ digitCount n := by
  induction n using Nat.strongRecOn with
  | ind n ih =>
    rw [digitCount]
    split
    · omega
    · have hlt := ih (n / 10) (by omega)
      rw [pow_succ]
      omega

/-- A magnitude is not below the power of ten of its leading digit. -/
theorem le_value_of_leadingExponent (hnum : 0 < m.numerator) (hden : 0 < m.denominator) :
    10 ^ leadingExponent m ≤ m.value := by
  have hden' : (0 : ℚ) < m.denominator := by exact_mod_cast hden
  have hnum' : (0 : ℚ) < m.numerator := by exact_mod_cast hnum
  unfold leadingExponent Magnitude.value
  split
  · rename_i hle
    have hquotient : m.numerator / m.denominator ≠ 0 := (Nat.div_pos hle hden).ne'
    have hcount : digitCount (m.numerator / m.denominator) ≠ 0 := by
      rw [digitCount, if_neg hquotient]
      omega
    obtain ⟨n, hn⟩ := Nat.exists_eq_succ_of_ne_zero hcount
    have hpow := pow_digitCount_le hquotient
    rw [hn, Nat.succ_sub_one, Nat.le_div_iff_mul_le hden] at hpow
    have hexponent : ((n + 1 : ℕ) : ℤ) - 1 = n := by omega
    rw [hn, hexponent, zpow_natCast, le_div_iff₀ hden']
    exact_mod_cast hpow
  · rename_i hlt
    generalize hcount : digitCount ((m.denominator + m.numerator - 1) / m.numerator - 1) = n
    have hpow := lt_pow_digitCount ((m.denominator + m.numerator - 1) / m.numerator - 1)
    rw [hcount] at hpow
    have hceil : m.denominator ≤ 10 ^ n * m.numerator := by
      have hdiv : (m.denominator + m.numerator - 1) / m.numerator < 10 ^ n + 1 := by omega
      rw [Nat.div_lt_iff_lt_mul hnum, Nat.add_mul] at hdiv
      omega
    rw [zpow_neg, zpow_natCast, inv_le_comm₀ (by positivity) (by positivity), inv_div,
      div_le_iff₀ hnum']
    exact_mod_cast hceil

variable {i : RoundingInterval}

/-- What lies between the ends of an interval is in it, the ends too if they belong to it. -/
theorem RoundingInterval.contains_iff (hunit : 0 < i.unit.denominator)
    (hm : 0 < m.denominator) :
    i.contains m = true ↔
      if i.closed then i.low * i.unit.value ≤ m.value ∧ m.value ≤ i.high * i.unit.value
      else i.low * i.unit.value < m.value ∧ m.value < i.high * i.unit.value := by
  have hunit' : (0 : ℚ) < i.unit.denominator := by exact_mod_cast hunit
  have hm' : (0 : ℚ) < m.denominator := by exact_mod_cast hm
  simp only [contains, Magnitude.value, ← mul_div_assoc]
  split
  · rw [Bool.and_eq_true, decide_eq_true_eq, decide_eq_true_eq, div_le_div_iff₀ hunit' hm',
      div_le_div_iff₀ hm' hunit']
    norm_cast
  · rw [Bool.and_eq_true, decide_eq_true_eq, decide_eq_true_eq, div_lt_div_iff₀ hunit' hm',
      div_lt_div_iff₀ hm' hunit']
    norm_cast

/-- What lies strictly between the ends of an interval is in it. -/
theorem RoundingInterval.contains_of_lt (hunit : 0 < i.unit.denominator)
    (hm : 0 < m.denominator) (hlow : i.low * i.unit.value < m.value)
    (hhigh : m.value < i.high * i.unit.value) : i.contains m = true := by
  rw [contains_iff hunit hm]
  split
  · exact ⟨hlow.le, hhigh.le⟩
  · exact ⟨hlow, hhigh⟩

/-- The unit of a rounding interval is a quarter of that of the mantissa. -/
theorem value_unit (mantissa : ℕ) (exponent : ℤ) :
    (RoundingInterval.ofBinary mantissa exponent).unit.value = 2 ^ exponent / 4 := by
  rw [RoundingInterval.ofBinary, Magnitude.value_ofBinary, zpow_sub₀ (by norm_num)]
  norm_num

/-- The lower end of a rounding interval lies a gap below the mantissa. -/
theorem low_mul_unit (h : 0 < mantissa) (exponent : ℤ) :
    (RoundingInterval.ofBinary mantissa exponent).low *
        (RoundingInterval.ofBinary mantissa exponent).unit.value =
      (mantissa - lowerGap mantissa exponent) * 2 ^ exponent := by
  rw [value_unit]
  simp only [RoundingInterval.ofBinary, lowerGap, Nat.pow_eq]
  split
  · rw [Nat.cast_sub (by omega)]
    push_cast
    ring
  · rw [Nat.cast_sub (by omega)]
    push_cast
    ring

/-- The upper end of a rounding interval lies half a unit above the mantissa. -/
theorem high_mul_unit (mantissa : ℕ) (exponent : ℤ) :
    (RoundingInterval.ofBinary mantissa exponent).high *
        (RoundingInterval.ofBinary mantissa exponent).unit.value =
      (mantissa + 1 / 2) * 2 ^ exponent := by
  rw [value_unit, RoundingInterval.ofBinary]
  push_cast
  ring

/-- What lies in the interval of a double is rounded to it. -/
theorem roundsTo_of_contains (hpos : 0 < mantissa) (hm : 0 < m.denominator)
    (h : (RoundingInterval.ofBinary mantissa exponent).contains m = true) :
    RoundsTo m.value mantissa exponent := by
  have htwo : (0 : ℚ) < 2 ^ exponent := by positivity
  have hunit := Magnitude.denominator_pos 1 (exponent - 2)
  rw [RoundingInterval.contains_iff hunit hm, low_mul_unit hpos, high_mul_unit] at h
  have hgap := lowerGap_le mantissa exponent
  split at h
  · rename_i hclosed
    obtain ⟨hlow, hhigh⟩ := h
    rw [← le_div_iff₀ htwo] at hlow
    rw [← div_le_iff₀ htwo] at hhigh
    exact ⟨hlow, hhigh, fun _ => of_decide_eq_true hclosed⟩
  · obtain ⟨hlow, hhigh⟩ := h
    rw [← lt_div_iff₀ htwo] at hlow
    rw [← div_lt_iff₀ htwo] at hhigh
    refine ⟨hlow.le, hhigh.le, ?_⟩
    rintro (heq | heq) <;> linarith

/-- A point that is taken is one of the two neighbours that lie in the interval. -/
theorem contains_of_gridPoint? {step : ℤ} {p : GridPoint} (h : gridPoint? i step = some p) :
    i.contains p.magnitude = true := by
  simp only [gridPoint?] at h
  split at h
  · rename_i hbelow habove
    cases h
    unfold roundDiv
    dsimp only
    split
    · exact hbelow
    · split
      · exact habove
      · rcases Nat.mod_two_eq_zero_or_one
          ((i.center.shift (-step)).numerator / (i.center.shift (-step)).denominator) with he | he
        · rw [he]
          exact hbelow
        · rw [he]
          exact habove
  · rename_i hbelow _
    cases h
    exact hbelow
  · rename_i _ habove
    cases h
    exact habove
  · cases h

/-- The shortest point lies in the interval. -/
theorem contains_of_shortestPoint? {leading : ℤ} {p : GridPoint}
    (h : shortestPoint? i leading = some p) : i.contains p.magnitude = true := by
  obtain ⟨digits, -, hpoint⟩ := List.exists_of_findSome?_eq_some h
  exact contains_of_gridPoint? hpoint

/-- The centre of a rounding interval is the double. -/
theorem value_center (mantissa : ℕ) (exponent : ℤ) :
    (RoundingInterval.ofBinary mantissa exponent).center.value = mantissa * 2 ^ exponent := by
  have hunit := value_unit mantissa exponent
  rw [Magnitude.value] at hunit
  rw [RoundingInterval.center, Magnitude.value]
  push_cast
  rw [mul_div_assoc, hunit, RoundingInterval.ofBinary]
  push_cast
  ring

/-- The quotient of a shifted magnitude counts the grid steps below it. -/
theorem Magnitude.quotient_shift (h : 0 < m.denominator) (step : ℤ) {q : ℕ}
    (hq : (m.shift (-step)).numerator / (m.shift (-step)).denominator = q) :
    q * 10 ^ step ≤ m.value ∧ m.value < ((q + 1 : ℕ) : ℚ) * 10 ^ step := by
  have hten : (0 : ℚ) < 10 ^ step := by positivity
  have hden := denominator_shift_pos h (-step)
  have hden' : (0 : ℚ) < (m.shift (-step)).denominator := by exact_mod_cast hden
  have hshift := m.value_shift (-step)
  rw [zpow_neg, ← div_eq_mul_inv] at hshift
  constructor
  · rw [← le_div_iff₀ hten, ← hshift, ← hq]
    exact Nat.cast_div_le
  · rw [← div_lt_iff₀ hten, ← hshift, value, div_lt_iff₀ hden', mul_comm]
    have hlt := Nat.lt_mul_div_succ (m.shift (-step)).numerator hden
    rw [hq] at hlt
    exact_mod_cast hlt

/-- A point is found on a grid if one of the two neighbours of the double is in the interval. -/
theorem isSome_gridPoint?_of_contains {step : ℤ} {q : ℕ}
    (hq : (i.center.shift (-step)).numerator / (i.center.shift (-step)).denominator = q)
    (h : i.contains (GridPoint.magnitude ⟨q, step⟩) = true ∨
      i.contains (GridPoint.magnitude ⟨q + 1, step⟩) = true) :
    (gridPoint? i step).isSome = true := by
  simp only [gridPoint?, hq]
  rcases h with hbelow | habove
  · rw [hbelow]
    cases i.contains (GridPoint.magnitude ⟨q + 1, step⟩) <;> rfl
  · rw [habove]
    cases i.contains (GridPoint.magnitude ⟨q, step⟩) <;> rfl

/-- A number strictly between the ends of the interval of a double lies in it. -/
theorem contains_ofBinary (hpos : 0 < mantissa) (hm : 0 < m.denominator)
    (hlow : (mantissa - lowerGap mantissa exponent) * 2 ^ exponent < m.value)
    (hhigh : m.value < (mantissa + 1 / 2) * 2 ^ exponent) :
    (RoundingInterval.ofBinary mantissa exponent).contains m = true := by
  refine RoundingInterval.contains_of_lt (Magnitude.denominator_pos 1 (exponent - 2)) hm ?_ ?_
  · rwa [low_mul_unit hpos]
  · rwa [high_mul_unit]

/-- A grid whose step is less than the width of the interval of a double has a point in it. -/
theorem isSome_gridPoint? (hpos : 0 < mantissa) {step : ℤ}
    (hstep : (10 : ℚ) ^ step < (lowerGap mantissa exponent + 1 / 2) * 2 ^ exponent) :
    (gridPoint? (.ofBinary mantissa exponent) step).isSome = true := by
  have hden : 0 < (RoundingInterval.ofBinary mantissa exponent).center.denominator :=
    Magnitude.denominator_pos 1 (exponent - 2)
  obtain ⟨hbelow, habove⟩ := Magnitude.quotient_shift hden step rfl
  rw [value_center] at hbelow habove
  refine isSome_gridPoint?_of_contains rfl ?_
  generalize ((RoundingInterval.ofBinary mantissa exponent).center.shift (-step)).numerator /
    ((RoundingInterval.ofBinary mantissa exponent).center.shift (-step)).denominator = q
    at hbelow habove ⊢
  have htwo : (0 : ℚ) < 2 ^ exponent := by positivity
  have hgap := mul_pos (lowerGap_pos mantissa exponent) htwo
  by_cases hlower : (mantissa - lowerGap mantissa exponent) * 2 ^ exponent < q * 10 ^ step
  · refine .inl (contains_ofBinary hpos (GridPoint.denominator_pos _) ?_ ?_)
    · rwa [GridPoint.value_magnitude]
    · rw [GridPoint.value_magnitude, GridPoint.value]
      linarith
  · -- The point above is one step above a point below the interval, so not above it.
    refine .inr (contains_ofBinary hpos (GridPoint.denominator_pos _) ?_ ?_)
    · rw [GridPoint.value_magnitude, GridPoint.value]
      linarith
    · rw [GridPoint.value_magnitude, GridPoint.value]
      push_cast
      linarith

/-- The step of the grid with seventeen digits is less than the width of the interval. -/
theorem ten_zpow_lt (h : IsCanonical mantissa exponent) {leading : ℤ}
    (hleading : 10 ^ leading ≤ (mantissa : ℚ) * 2 ^ exponent) :
    (10 : ℚ) ^ (leading - 16) < (lowerGap mantissa exponent + 1 / 2) * 2 ^ exponent := by
  have htwo : (0 : ℚ) < 2 ^ exponent := by positivity
  have hlt : (mantissa : ℚ) < (lowerGap mantissa exponent + 1 / 2) * 10 ^ 16 := by
    have hbound : (mantissa : ℚ) < 2 ^ 53 := by exact_mod_cast h.lt
    unfold lowerGap
    split
    · rename_i hpower
      rw [hpower.1]
      norm_num
    · norm_num at hbound ⊢
      linarith
  calc (10 : ℚ) ^ (leading - 16) = 10 ^ leading / 10 ^ 16 := by
        rw [zpow_sub₀ (by norm_num)]
        norm_num
    _ ≤ mantissa * 2 ^ exponent / 10 ^ 16 := by gcongr
    _ < (lowerGap mantissa exponent + 1 / 2) * 10 ^ 16 * 2 ^ exponent / 10 ^ 16 := by gcongr
    _ = (lowerGap mantissa exponent + 1 / 2) * 2 ^ exponent := by ring

/-- Some decimal of at most seventeen digits is rounded to a double. -/
theorem exists_shortestPoint?_eq (h : IsCanonical mantissa exponent) :
    ∃ p, shortestPoint? (.ofBinary mantissa exponent)
        (leadingExponent (RoundingInterval.ofBinary mantissa exponent).center) = some p ∧
      RoundsTo p.value mantissa exponent := by
  have hcenter := value_center mantissa exponent
  have hden : 0 < (RoundingInterval.ofBinary mantissa exponent).center.denominator :=
    Magnitude.denominator_pos 1 (exponent - 2)
  have hnum : 0 < (RoundingInterval.ofBinary mantissa exponent).center.numerator := by
    have hpos : (0 : ℚ) < mantissa * 2 ^ exponent :=
      mul_pos (by exact_mod_cast h.pos) (by positivity)
    refine Nat.pos_of_ne_zero fun hzero => ?_
    rw [Magnitude.value, hzero, Nat.cast_zero, zero_div] at hcenter
    exact hpos.ne hcenter
  have hleading := le_value_of_leadingExponent hnum hden
  rw [hcenter] at hleading
  generalize leadingExponent (RoundingInterval.ofBinary mantissa exponent).center = leading
    at hleading ⊢
  have hfound : (shortestPoint? (.ofBinary mantissa exponent) leading).isSome = true := by
    rw [shortestPoint?, List.findSome?_isSome_iff]
    refine ⟨16, List.mem_range.mpr (by decide), ?_⟩
    exact isSome_gridPoint? h.pos (ten_zpow_lt h hleading)
  obtain ⟨p, hp⟩ := Option.isSome_iff_exists.mp hfound
  refine ⟨p, hp, ?_⟩
  rw [← p.value_magnitude]
  exact roundsTo_of_contains h.pos p.denominator_pos (contains_of_shortestPoint? hp)

end IndicatorFormula.Decimal
