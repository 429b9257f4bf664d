import Mathlib

/-!
# Rounding to doubles

The arithmetic of doubles keeps a mantissa with two residual bits that tell where between
two mantissas the exact result lies. Shifting the mantissa keeps this knowledge, and the
mantissa that is rounded in the end is the nearest one, the even one on a tie.
-/

namespace IndicatorFormula.Decimal

open Float.Model Float.Model.UnpackedFloat

/-- A number lies where a mantissa and its residual bits say. -/
def Approximates (em : ExtendedMantissa) (t : ℚ) : Prop :=
  match em.roundBit, em.stickyBit with
  | false, false => t = em.mantissa
  | false, true => em.mantissa < t ∧ t < em.mantissa + 1 / 2
  | true, false => t = em.mantissa + 1 / 2
  | true, true => em.mantissa + 1 / 2 < t ∧ t < em.mantissa + 1

variable {em : ExtendedMantissa} {t : ℚ}

/-- What is approximated is not below the mantissa. -/
theorem Approximates.le (h : Approximates em t) : (em.mantissa : ℚ) ≤ t := by
  obtain ⟨m, r, s⟩ := em
  cases r <;> cases s <;> simp only [Approximates] at h ⊢
  · exact h.ge
  · exact h.1.le
  · linarith
  · linarith [h.1]

/-- What is approximated is below the next mantissa. -/
theorem Approximates.lt (h : Approximates em t) : t < em.mantissa + 1 := by
  obtain ⟨m, r, s⟩ := em
  cases r <;> cases s <;> simp only [Approximates] at h ⊢
  · linarith
  · linarith [h.2]
  · linarith
  · exact h.2

/-- Halving a number is shifting its mantissa. -/
theorem Approximates.shiftRightOne (h : Approximates em t) :
    Approximates em.shiftRightOne (t / 2) := by
  obtain ⟨m, r, s⟩ := em
  obtain ⟨k, hk⟩ := Nat.even_or_odd' m
  have hdiv : m / 2 = k := by omega
  have hcast : (m : ℚ) = 2 * k ∧ m % 2 = 0 ∨ (m : ℚ) = 2 * k + 1 ∧ m % 2 = 1 := by
    rcases hk with rfl | rfl
    · exact .inl ⟨by push_cast; ring, by omega⟩
    · exact .inr ⟨by push_cast; ring, by omega⟩
  rcases hcast with ⟨hm, hmod⟩ | ⟨hm, hmod⟩ <;> cases r <;> cases s <;>
    simp only [Approximates, ExtendedMantissa.shiftRightOne, hdiv, hmod, hm] at h ⊢
  case inl.false.false => show t / 2 = k; linarith
  case inl.false.true => exact ⟨by linarith [h.1], by linarith [h.2]⟩
  case inl.true.false => exact ⟨by linarith, by linarith⟩
  case inl.true.true => exact ⟨by linarith [h.1], by linarith [h.2]⟩
  case inr.false.false => show t / 2 = k + 1 / 2; linarith
  case inr.false.true => exact ⟨by linarith [h.1], by linarith [h.2]⟩
  case inr.true.false => exact ⟨by linarith, by linarith⟩
  case inr.true.true => exact ⟨by linarith [h.1], by linarith [h.2]⟩

/-- Shifting to the right approximates the quotient by the power of two. -/
theorem Approximates.shiftRight (h : Approximates em t) (n : ℕ) :
    Approximates (em >>> n) (t / 2 ^ n) := by
  induction n with
  | zero =>
    rw [pow_zero, div_one]
    exact h
  | succ n ih =>
    have hstep := ih.shiftRightOne
    rwa [div_div, ← pow_succ] at hstep

/-- A number is rounded to a whole number: it is the nearest one, the even one on a tie. -/
structure IsNearest (t : ℚ) (q : ℕ) : Prop where
  /-- It is not too large. -/
  le : (q : ℚ) - 1 / 2 ≤ t
  /-- It is not too small. -/
  ge : t ≤ q + 1 / 2
  /-- On a tie it is even. -/
  even : t = q - 1 / 2 ∨ t = q + 1 / 2 → q % 2 = 0

/-- The rounded mantissa is the nearest whole number. -/
theorem Approximates.roundedMantissa_eq (h : Approximates em t) {q : ℕ} (hq : IsNearest t q) :
    em.roundedMantissa = q := by
  obtain ⟨m, r, s⟩ := em
  have hle := hq.le
  have hge := hq.ge
  cases r <;> cases s <;>
    simp only [Approximates, ExtendedMantissa.roundedMantissa, ExtendedMantissa.accuracy,
      Accuracy.roundToNearestEven] at h ⊢
  · have h1 : (q : ℚ) < m + 1 := by linarith
    have h2 : (m : ℚ) < q + 1 := by linarith
    norm_cast at h1 h2
    omega
  · have h1 : (q : ℚ) < m + 1 := by linarith [h.2]
    have h2 : (m : ℚ) < q + 1 := by linarith [h.1]
    norm_cast at h1 h2
    omega
  · have h1 : (q : ℚ) ≤ m + 1 := by linarith
    have h2 : (m : ℚ) ≤ q := by linarith
    norm_cast at h1 h2
    have heven : q % 2 = 0 := by
      rcases Nat.lt_or_ge m q with hlt | hge'
      · have : q = m + 1 := by omega
        exact hq.even (.inl (by rw [h, this]; push_cast; ring))
      · have : q = m := by omega
        exact hq.even (.inr (by rw [h, this]))
    omega
  · have h1 : (q : ℚ) < m + 2 := by linarith [h.2]
    have h2 : (m : ℚ) < q := by linarith [h.1]
    norm_cast at h1 h2
    omega

/-- A mantissa and an exponent are those of a double other than zero. -/
structure IsCanonical (m : ℕ) (e : ℤ) : Prop where
  /-- The mantissa is not zero. -/
  pos : 0 < m
  /-- The mantissa has no more than its bits. -/
  lt : m < 2 ^ 53
  /-- The exponent is not below the least. -/
  ge : -1074 ≤ e
  /-- The exponent is not above the greatest. -/
  le : e ≤ 971
  /-- The mantissa has all its bits unless the exponent is the least. -/
  full : 2 ^ 52 ≤ m ∨ e = -1074

/-- How far the numbers that are rounded to a double reach below it, in units of its last
bit. Below a power of two the neighbour is only half as far away, unless the exponent is the
least. -/
def lowerGap (m : ℕ) (e : ℤ) : ℚ := if m = 2 ^ 52 ∧ -1074 < e then 1 / 4 else 1 / 2

/-- The gap below a double is positive. -/
theorem lowerGap_pos (m : ℕ) (e : ℤ) : 0 < lowerGap m e := by
  unfold lowerGap
  split <;> norm_num

/-- The gap below a double is at most half a unit. -/
theorem lowerGap_le (m : ℕ) (e : ℤ) : lowerGap m e ≤ 1 / 2 := by
  unfold lowerGap
  split <;> norm_num

/-- A number is rounded to a double. -/
structure RoundsTo (v : ℚ) (m : ℕ) (e : ℤ) : Prop where
  /-- It is not too small. -/
  ge : (m : ℚ) - lowerGap m e ≤ v / 2 ^ e
  /-- It is not too large. -/
  le : v / 2 ^ e ≤ m + 1 / 2
  /-- On a tie the mantissa is even. -/
  even : v / 2 ^ e = m - 1 / 2 ∨ v / 2 ^ e = m + 1 / 2 → m % 2 = 0

theorem targetExponent_binary64 (k : ℤ) :
    Format.binary64.targetExponent k = max (k - 53) (-1074) := by
  simp [Format.targetExponent, Format.mantissaBits, Format.minExponent]

variable {m m₀ : ℕ} {e e₀ : ℤ} {v : ℚ} {acc : Accuracy}

theorem mantissa_ofMantissaAndAccuracy (m : ℕ) (acc : Accuracy) :
    (ExtendedMantissa.ofMantissaAndAccuracy m acc).mantissa = m := by
  unfold ExtendedMantissa.ofMantissaAndAccuracy
  split <;> rfl

/-- What lies at a mantissa lies below the power of two behind its leading bit. -/
theorem Approximates.lt_two_zpow (h : Approximates (.ofMantissaAndAccuracy m acc) (v / 2 ^ e)) :
    v < 2 ^ ((m.log2 : ℤ) + 1 + e) := by
  have hpow : (m : ℚ) + 1 ≤ 2 ^ (m.log2 + 1) := by exact_mod_cast Nat.lt_log2_self (n := m)
  have hlt := h.lt
  rw [mantissa_ofMantissaAndAccuracy, div_lt_iff₀ (by positivity)] at hlt
  calc v < (m + 1) * 2 ^ e := hlt
    _ ≤ 2 ^ (m.log2 + 1) * 2 ^ e := by gcongr
    _ = 2 ^ ((m.log2 : ℤ) + 1 + e) := by
      rw [zpow_add₀ (by norm_num : (2 : ℚ) ≠ 0)]
      norm_cast

/-- What lies at a mantissa lies not below the power of two of its leading bit. -/
theorem Approximates.two_zpow_le (h : Approximates (.ofMantissaAndAccuracy m acc) (v / 2 ^ e))
    (hm : m ≠ 0) : 2 ^ ((m.log2 : ℤ) + e) ≤ v := by
  have hpow : (2 : ℚ) ^ m.log2 ≤ m := by exact_mod_cast Nat.log2_self_le hm
  have hle := h.le
  rw [mantissa_ofMantissaAndAccuracy, le_div_iff₀ (by positivity)] at hle
  calc (2 : ℚ) ^ ((m.log2 : ℤ) + e) = 2 ^ m.log2 * 2 ^ e := by
        rw [zpow_add₀ (by norm_num : (2 : ℚ) ≠ 0)]
        norm_cast
    _ ≤ m * 2 ^ e := by gcongr
    _ ≤ v := hle

/-- What rounds to a canonical double is below the next power of two. -/
theorem RoundsTo.lt_two_zpow (hv : RoundsTo v m₀ e₀) (hcanonical : IsCanonical m₀ e₀) :
    v < 2 ^ (53 + e₀) := by
  have hm : (m₀ : ℚ) + 1 ≤ 2 ^ 53 := by exact_mod_cast hcanonical.lt
  have hle := hv.le
  rw [div_le_iff₀ (by positivity)] at hle
  have hpos : (0 : ℚ) < 2 ^ e₀ := by positivity
  rw [zpow_add₀ (by norm_num : (2 : ℚ) ≠ 0)]
  calc v ≤ (m₀ + 1 / 2) * 2 ^ e₀ := hle
    _ < 2 ^ (53 : ℤ) * 2 ^ e₀ := by
      have hlt : (m₀ : ℚ) + 1 / 2 < 2 ^ (53 : ℤ) := by
        norm_num at hm ⊢
        linarith
      gcongr

/-- What rounds to a double is not below it by more than half a unit. -/
theorem RoundsTo.half_le (hv : RoundsTo v m₀ e₀) : (m₀ : ℚ) - 1 / 2 ≤ v / 2 ^ e₀ := by
  have hge := hv.ge
  have hgap := lowerGap_le m₀ e₀
  linarith

/-- The exponent to which a mantissa is shifted is that of the double or, just below a power
of two, one less. -/
theorem targetExponent_eq (hcanonical : IsCanonical m₀ e₀)
    (happrox : Approximates (.ofMantissaAndAccuracy m acc) (v / 2 ^ e))
    (hbits : e ≤ Format.binary64.targetExponent (totalExponent m e)) (hv : RoundsTo v m₀ e₀) :
    Format.binary64.targetExponent (totalExponent m e) = e₀ ∨
      Format.binary64.targetExponent (totalExponent m e) = e₀ - 1 ∧ m₀ = 2 ^ 52 ∧ -1074 < e₀ ∧
        v / 2 ^ e₀ < 2 ^ 52 := by
  rw [targetExponent_binary64, totalExponent] at hbits ⊢
  have htwo : (1 : ℚ) < 2 := by norm_num
  have hge := hcanonical.ge
  have hupper : max ((m.log2 : ℤ) + 1 + e - 53) (-1074) ≤ e₀ := by
    rcases eq_or_ne m 0 with rfl | hm
    · have : Nat.log2 0 = 0 := rfl
      omega
    · have hlt := (happrox.two_zpow_le hm).trans_lt (hv.lt_two_zpow hcanonical)
      rw [zpow_lt_zpow_iff_right₀ htwo] at hlt
      omega
  rcases eq_or_ne e₀ (-1074) with hleast | hleast
  · exact .inl (by omega)
  · have hfull := hcanonical.full.resolve_right hleast
    have hhalf := hv.half_le
    have hpos : (0 : ℚ) < 2 ^ e₀ := by positivity
    have hfull' : (2 : ℚ) ^ 52 ≤ m₀ := by exact_mod_cast hfull
    have hlower : 2 ^ (51 + e₀) ≤ v := by
      rw [zpow_add₀ (by norm_num : (2 : ℚ) ≠ 0), ← le_div_iff₀ hpos]
      norm_num
      linarith
    have hlt := hlower.trans_lt happrox.lt_two_zpow
    rw [zpow_lt_zpow_iff_right₀ htwo] at hlt
    rcases eq_or_ne (max ((m.log2 : ℤ) + 1 + e - 53) (-1074)) e₀ with heq | hne
    · exact .inl heq
    · have hv' : v < 2 ^ (52 + e₀) := by
        refine happrox.lt_two_zpow.trans_le ?_
        rw [zpow_le_zpow_iff_right₀ htwo]
        omega
      rw [zpow_add₀ (by norm_num : (2 : ℚ) ≠ 0), ← div_lt_iff₀ hpos] at hv'
      refine .inr ⟨by omega, ?_, by omega, by exact_mod_cast hv'⟩
      by_contra hm₀
      have hm₀' : (2 : ℚ) ^ 52 + 1 ≤ m₀ := by
        exact_mod_cast (by omega : 2 ^ 52 + 1 ≤ m₀)
      norm_num at hv'
      linarith

/-- The exponent of a double is none to which its mantissa would be shifted back. -/
theorem IsCanonical.le_targetExponent (h : IsCanonical m e) :
    e ≤ Format.binary64.targetExponent (totalExponent m e) := by
  rw [targetExponent_binary64, totalExponent]
  rcases h.full with hfull | hleast
  · have hlog := (Nat.le_log2 h.pos.ne').mpr hfull
    omega
  · omega

/-- Shifting a mantissa to a greater exponent keeps the number. -/
theorem Approximates.shiftToExponent
    (h : Approximates (.ofMantissaAndAccuracy m acc) (v / 2 ^ e)) {target : ℤ}
    (hle : e ≤ target) :
    (shiftToExponent m e acc target).2 = target ∧
      Approximates (shiftToExponent m e acc target).1 (v / 2 ^ target) := by
  obtain ⟨n, rfl⟩ : ∃ n : ℕ, target = e + n := ⟨(target - e).toNat, by omega⟩
  have hn : (e + n - e).toNat = n := by omega
  have hpow : v / 2 ^ (e + n) = v / 2 ^ e / 2 ^ n := by
    rw [zpow_add₀ (by norm_num : (2 : ℚ) ≠ 0), zpow_natCast, div_div]
  simp only [UnpackedFloat.shiftToExponent, hn, hpow]
  exact ⟨trivial, h.shiftRight n⟩

/-- A double rounds to itself. -/
theorem RoundsTo.self (m₀ : ℕ) (e₀ : ℤ) : RoundsTo (m₀ * 2 ^ e₀) m₀ e₀ := by
  have hpos : (2 : ℚ) ^ e₀ ≠ 0 := by positivity
  have hself : (m₀ : ℚ) * 2 ^ e₀ / 2 ^ e₀ = m₀ := by field_simp
  refine ⟨?_, ?_, ?_⟩ <;> rw [hself]
  · linarith [lowerGap_pos m₀ e₀]
  · linarith
  · rintro (h | h) <;> linarith

/-- A mantissa that stands for a double exactly is shifted to that of the double. -/
theorem shiftToTargetExponent_exact (hcanonical : IsCanonical m₀ e₀)
    (heq : (m : ℚ) * 2 ^ e = m₀ * 2 ^ e₀)
    (hbits : e ≤ Format.binary64.targetExponent (totalExponent m e)) :
    (shiftToTargetExponent Format.binary64 m e .exact).1.mantissa = m₀ ∧
      (shiftToTargetExponent Format.binary64 m e .exact).2 = e₀ := by
  have hpos : (2 : ℚ) ^ e ≠ 0 := by positivity
  have happrox : Approximates (.ofMantissaAndAccuracy m .exact) ((m₀ : ℚ) * 2 ^ e₀ / 2 ^ e) := by
    rw [← heq]
    simp only [ExtendedMantissa.ofMantissaAndAccuracy, Approximates]
    field_simp
  have hself : (m₀ : ℚ) * 2 ^ e₀ / 2 ^ e₀ = m₀ := by
    have : (2 : ℚ) ^ e₀ ≠ 0 := by positivity
    field_simp
  have htarget : Format.binary64.targetExponent (totalExponent m e) = e₀ := by
    refine (targetExponent_eq hcanonical happrox hbits (.self m₀ e₀)).resolve_right ?_
    rintro ⟨-, rfl, -, hlt⟩
    rw [hself] at hlt
    norm_num at hlt
  rw [htarget] at hbits
  obtain ⟨hexponent, hmantissa⟩ := happrox.shiftToExponent hbits
  rw [hself] at hmantissa
  rw [shiftToTargetExponent, htarget]
  refine ⟨?_, hexponent⟩
  have hle := hmantissa.le
  have hlt := hmantissa.lt
  norm_cast at hle hlt
  omega

theorem IsNearest.of_roundsTo (hv : RoundsTo v m₀ e₀) : IsNearest (v / 2 ^ e₀) m₀ :=
  ⟨hv.half_le, hv.le, hv.even⟩

/-- Just below a power of two the nearest mantissa in the finer spacing is that power. -/
theorem IsNearest.of_roundsTo_below (hv : RoundsTo v (2 ^ 52) e₀) (hleast : -1074 < e₀)
    (hbelow : v / 2 ^ e₀ < 2 ^ 52) : IsNearest (v / 2 ^ (e₀ - 1)) (2 ^ 53) := by
  have hge := hv.ge
  rw [lowerGap, if_pos ⟨rfl, hleast⟩] at hge
  have hpow : v / 2 ^ (e₀ - 1) = 2 * (v / 2 ^ e₀) := by
    rw [zpow_sub_one₀ (by norm_num : (2 : ℚ) ≠ 0)]
    field_simp
  rw [hpow]
  push_cast at hge ⊢
  exact ⟨by linarith, by linarith, fun _ => by norm_num⟩

/-- Whatever is rounded to a double becomes that double, if the mantissa has enough bits. -/
theorem roundWithAccuracy_eq (hcanonical : IsCanonical m₀ e₀)
    (happrox : Approximates (.ofMantissaAndAccuracy m acc) (v / 2 ^ e))
    (hbits : e ≤ Format.binary64.targetExponent (totalExponent m e)) (hv : RoundsTo v m₀ e₀)
    (s : Sign) :
    roundWithAccuracy Format.binary64 s m e acc = .finite s m₀ e₀ hcanonical.pos := by
  obtain ⟨hexponent, hmantissa⟩ := happrox.shiftToExponent hbits
  have hsecond : ∀ r : ℕ, ∀ e₁ : ℤ,
      (shiftToTargetExponent Format.binary64 m e acc).1.roundedMantissa = r →
      (shiftToTargetExponent Format.binary64 m e acc).2 = e₁ → (r : ℚ) * 2 ^ e₁ = m₀ * 2 ^ e₀ →
      e₁ ≤ Format.binary64.targetExponent (totalExponent r e₁) →
      roundWithAccuracy Format.binary64 s m e acc = .finite s m₀ e₀ hcanonical.pos := by
    rintro r e₁ hr he₁ heq hbits'
    obtain ⟨hm, he⟩ := shiftToTargetExponent_exact hcanonical heq hbits'
    simp only [roundWithAccuracy, hr, he₁, hm, he, hcanonical.pos.ne', dite_false]
  rcases targetExponent_eq hcanonical happrox hbits hv with htarget | ⟨htarget, rfl, hleast, hlt⟩
  · rw [htarget] at hexponent hmantissa
    refine hsecond m₀ e₀ ?_ ?_ rfl ?_
    · rw [shiftToTargetExponent, htarget]
      exact hmantissa.roundedMantissa_eq (.of_roundsTo hv)
    · rw [shiftToTargetExponent, htarget, hexponent]
    · exact hcanonical.le_targetExponent
  · rw [htarget] at hexponent hmantissa
    refine hsecond (2 ^ 53) (e₀ - 1) ?_ ?_ ?_ ?_
    · rw [shiftToTargetExponent, htarget]
      exact hmantissa.roundedMantissa_eq (.of_roundsTo_below hv hleast hlt)
    · rw [shiftToTargetExponent, htarget, hexponent]
    · rw [zpow_sub_one₀ (by norm_num : (2 : ℚ) ≠ 0)]
      push_cast
      ring
    · rw [targetExponent_binary64, totalExponent, Nat.log2_two_pow]
      omega

end IndicatorFormula.Decimal
