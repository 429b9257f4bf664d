import IndicatorFormula.Proofs.Decimal.ReadBack
import IndicatorFormula.Proofs.Decimal.Vanishing

/-!
# Decimals that are too large

A decimal is read as a finite double just when it lies below the middle between the greatest
double and the power of two behind it. From there on it is rounded to that power, which no double
holds, and is read as infinite. The mantissa decides: it has its bits before it is rounded, and
rounding may give it one more.
-/

namespace IndicatorFormula.Decimal

open Float.Model Float.Model.UnpackedFloat

/-- The middle between the greatest double and the power of two behind it. -/
def tooLarge : ℚ := 2 ^ 1024 - 2 ^ 970

/-- The least number that is too large lies half a unit above the largest double. -/
theorem tooLarge_eq : tooLarge = (2 ^ 53 - 1 / 2) * 2 ^ (971 : ℤ) := by
  have hpower : (2 : ℚ) ^ (971 : ℤ) = 2 * 2 ^ 970 := by
    rw [← pow_succ']
    exact zpow_natCast 2 971
  have hlarge : (2 : ℚ) ^ 1024 = 2 ^ 53 * (2 * 2 ^ 970) := by
    rw [← pow_succ', ← pow_add]
  rw [tooLarge, hpower, hlarge]
  generalize (2 : ℚ) ^ 970 = x
  ring

theorem one_lt_tooLarge : 1 < tooLarge := by
  have hpower : (1 : ℚ) ≤ 2 ^ (971 : ℤ) := one_le_zpow₀ one_le_two (by norm_num)
  rw [tooLarge_eq]
  calc (1 : ℚ) < 2 ^ 53 - 1 / 2 := by norm_num
    _ ≤ (2 ^ 53 - 1 / 2) * 2 ^ (971 : ℤ) := le_mul_of_one_le_right (by norm_num) hpower

section Rounding

variable {em : ExtendedMantissa} {t v : ℚ} {m r : ℕ} {e target : ℤ} {acc : Accuracy} {s : Sign}

/-- A rounded mantissa lies at most half a unit above the number. -/
theorem Approximates.roundedMantissa_le (h : Approximates em t) :
    (em.roundedMantissa : ℚ) - 1 / 2 ≤ t := by
  obtain ⟨m, r, s⟩ := em
  cases r <;> cases s <;>
    simp only [Approximates, ExtendedMantissa.roundedMantissa, ExtendedMantissa.accuracy,
      Accuracy.roundToNearestEven] at h ⊢
  · linarith
  · linarith [h.1]
  · have hparity : m % 2 = 0 ∨ m % 2 = 1 := by omega
    rcases hparity with hparity | hparity <;> simp [hparity] <;> linarith
  · push_cast
    linarith [h.1]

/-- Rounding raises a mantissa by at most one. -/
theorem roundedMantissa_le (em : ExtendedMantissa) : em.roundedMantissa ≤ em.mantissa + 1 := by
  unfold ExtendedMantissa.roundedMantissa Accuracy.roundToNearestEven
  split <;> omega

/-- A mantissa with enough bits is shifted to one with no more than its bits. -/
theorem Approximates.shiftToTargetExponent
    (h : Approximates (.ofMantissaAndAccuracy m acc) (v / 2 ^ e))
    (hbits : e ≤ Format.binary64.targetExponent (totalExponent m e)) :
    ∃ em target, shiftToTargetExponent Format.binary64 m e acc = (em, target) ∧
      Approximates em (v / 2 ^ target) ∧ IsFull em.mantissa target := by
  obtain ⟨hexponent, happrox⟩ := h.shiftToExponent hbits
  generalize hshift : UnpackedFloat.shiftToTargetExponent Format.binary64 m e acc = shifted
  change UnpackedFloat.shiftToExponent m e acc _ = _ at hshift
  rw [hshift] at hexponent happrox
  rw [← hexponent] at happrox
  refine ⟨shifted.1, shifted.2, rfl, happrox, ?_⟩
  rcases eq_or_ne m 0 with rfl | hm
  · have hlog : Nat.log2 0 = 0 := rfl
    have hmantissa : shifted.1.mantissa = 0 := by
      simp only [← hshift, UnpackedFloat.shiftToExponent, mantissa_shiftRight,
        mantissa_ofMantissaAndAccuracy, Nat.zero_div]
    rw [targetExponent_binary64, totalExponent, hlog] at hbits hexponent
    rw [hmantissa, hexponent]
    exact ⟨by norm_num, by omega, .inr (by omega)⟩
  · obtain ⟨em, target, heq, hfull, -⟩ := shiftToTargetExponent_spec hm hbits acc
    change UnpackedFloat.shiftToExponent m e acc _ = _ at heq
    rw [← hshift, heq]
    exact hfull

/-- A mantissa that has no more than its bits is not shifted again. -/
theorem shiftToTargetExponent_small (hr : r < 2 ^ 53) (htarget : -1074 ≤ target) :
    shiftToTargetExponent Format.binary64 r target .exact =
      (.ofMantissaAndAccuracy r .exact, target) := by
  have hlog : r.log2 ≤ 52 := by
    rcases eq_or_ne r 0 with rfl | hr0
    · decide
    · exact Nat.le_of_lt_succ ((Nat.log2_lt hr0).mpr hr)
  have hamount : (Format.binary64.targetExponent (totalExponent r target) - target).toNat = 0 := by
    rw [targetExponent_binary64, totalExponent]
    omega
  simp only [shiftToTargetExponent, shiftToExponent, hamount]
  exact Prod.ext rfl (add_zero target)

/-- A mantissa that was given another bit is shifted by one. -/
theorem shiftToTargetExponent_carry (htarget : -1074 ≤ target) :
    (shiftToTargetExponent Format.binary64 (2 ^ 53) target .exact).1.mantissa = 2 ^ 52 ∧
      (shiftToTargetExponent Format.binary64 (2 ^ 53) target .exact).2 = target + 1 := by
  have hamount :
      (Format.binary64.targetExponent (totalExponent (2 ^ 53) target) - target).toNat = 1 := by
    rw [targetExponent_binary64, totalExponent, Nat.log2_two_pow]
    omega
  simp only [shiftToTargetExponent, shiftToExponent, hamount, mantissa_shiftRight,
    mantissa_ofMantissaAndAccuracy]
  exact ⟨by norm_num, rfl⟩

theorem isFinite_pack_zero (s : Sign) :
    (Float.Model.pack (.zero s)).unpack.isFinite = true := by cases s <;> rfl

/-- What has a mantissa and an exponent is packed to a finite double unless it lies above all. -/
theorem isFinite_pack_iff (hpos : 0 < m) (h : IsFull m e) :
    (Float.Model.pack (.finite s m e hpos)).unpack.isFinite = true ↔ e ≤ 971 := by
  rcases le_or_gt e 971 with hle | hgt
  · rw [Decimal.unpack_pack ⟨hpos, h.lt, h.ge, hle, h.full⟩]
    exact iff_of_true rfl hle
  · rw [unpack_pack_of_large hpos hgt]
    exact iff_of_false (by simp [UnpackedFloat.isFinite]) hgt.not_ge

/-- The exponent tells whether a number is too large, and at the greatest one the mantissa. -/
theorem lt_tooLarge_iff (hlt : t < 2 ^ 53) (hge : 2 ^ 52 ≤ t ∨ target = -1074) :
    t * 2 ^ target < tooLarge ↔ target < 971 ∨ target = 971 ∧ t < 2 ^ 53 - 1 / 2 := by
  have hpower : (0 : ℚ) < 2 ^ target := by positivity
  have htwo : (1 : ℚ) ≤ 2 := one_le_two
  rw [tooLarge_eq]
  rcases lt_trichotomy target 971 with hsmall | rfl | hlarge
  · refine iff_of_true ?_ (.inl hsmall)
    have hhalf : (2 : ℚ) * 2 ^ target ≤ 2 ^ (971 : ℤ) := by
      rw [← zpow_one_add₀ (by norm_num)]
      exact zpow_le_zpow_right₀ htwo (by omega)
    calc t * 2 ^ target < 2 ^ 53 * 2 ^ target := by gcongr
      _ = 2 ^ 52 * (2 * 2 ^ target) := by ring
      _ ≤ 2 ^ 52 * 2 ^ (971 : ℤ) := by gcongr
      _ ≤ (2 ^ 53 - 1 / 2) * 2 ^ (971 : ℤ) := by gcongr; norm_num
  · rw [mul_lt_mul_iff_left₀ hpower]
    simp
  · refine iff_of_false ?_ (by omega)
    have hfull := hge.resolve_right (by omega)
    have hdouble : (2 : ℚ) * 2 ^ (971 : ℤ) ≤ 2 ^ target := by
      rw [← zpow_one_add₀ (by norm_num)]
      exact zpow_le_zpow_right₀ htwo (by omega)
    rw [not_lt]
    calc (2 ^ 53 - 1 / 2) * (2 : ℚ) ^ (971 : ℤ) ≤ 2 ^ 53 * 2 ^ (971 : ℤ) := by gcongr; norm_num
      _ = 2 ^ 52 * (2 * 2 ^ (971 : ℤ)) := by ring
      _ ≤ t * 2 ^ target := by gcongr

/-- Rounding leaves no mantissa, keeps the exponent or gives the mantissa another bit. -/
theorem roundWithAccuracy_cases
    (hshift : shiftToTargetExponent Format.binary64 m e acc = (em, target))
    (hfull : IsFull em.mantissa target) (s : Sign) :
    em.roundedMantissa = 0 ∧ roundWithAccuracy Format.binary64 s m e acc = .zero s ∨
      (∃ hpos, em.roundedMantissa < 2 ^ 53 ∧ roundWithAccuracy Format.binary64 s m e acc =
        .finite s em.roundedMantissa target hpos) ∨
      em.roundedMantissa = 2 ^ 53 ∧ roundWithAccuracy Format.binary64 s m e acc =
        .finite s (2 ^ 52) (target + 1) (by norm_num) := by
  have hup := roundedMantissa_le em
  have hlt := hfull.lt
  rcases Nat.lt_or_ge em.roundedMantissa (2 ^ 53) with hsmall | hlarge
  · have hsecond := shiftToTargetExponent_small hsmall hfull.ge
    rcases Nat.eq_zero_or_pos em.roundedMantissa with hzero | hpos
    · refine .inl ⟨hzero, ?_⟩
      rw [hzero] at hsecond
      simp only [roundWithAccuracy, hshift, hsecond, mantissa_ofMantissaAndAccuracy, hzero,
        dite_true]
    · refine .inr (.inl ⟨hpos, hsmall, ?_⟩)
      simp only [roundWithAccuracy, hshift, hsecond, mantissa_ofMantissaAndAccuracy, hpos.ne',
        dite_false]
  · have hcarry : em.roundedMantissa = 2 ^ 53 := by omega
    obtain ⟨hmantissa, hexponent⟩ := shiftToTargetExponent_carry hfull.ge
    refine .inr (.inr ⟨hcarry, ?_⟩)
    have hne : (2 : ℕ) ^ 52 ≠ 0 := by norm_num
    simp only [roundWithAccuracy, hshift, hcarry, hmantissa, hexponent, hne, dite_false]

/-- What is rounded is a finite double just when it is not too large. -/
theorem isFinite_rounded_iff (h : Approximates (.ofMantissaAndAccuracy m acc) (v / 2 ^ e))
    (hbits : e ≤ Format.binary64.targetExponent (totalExponent m e)) (s : Sign) :
    (Float.Model.pack (roundWithAccuracy Format.binary64 s m e acc)).unpack.isFinite = true ↔
      v < tooLarge := by
  obtain ⟨em, target, hshift, happrox, hfull⟩ := h.shiftToTargetExponent hbits
  have hdown := le_roundedMantissa em
  have hnear := happrox.roundedMantissa_le
  have hceil : (2 : ℚ) ^ 53 - 1 / 2 ≤ v / 2 ^ target → em.roundedMantissa = 2 ^ 53 := by
    intro hle
    have hlt := happrox.lt
    have hmantissa : (em.mantissa : ℚ) + 1 ≤ 2 ^ 53 := by exact_mod_cast hfull.lt
    refine happrox.roundedMantissa_eq ⟨?_, ?_, fun _ => by norm_num⟩
    · push_cast
      exact hle
    · push_cast
      linarith
  have hvalue : v < tooLarge ↔ target < 971 ∨ target = 971 ∧ v / 2 ^ target < 2 ^ 53 - 1 / 2 := by
    have hpower : (2 : ℚ) ^ target ≠ 0 := by positivity
    rw [← lt_tooLarge_iff ?_ ?_, div_mul_cancel₀ v hpower]
    · have hmantissa : (em.mantissa : ℚ) + 1 ≤ 2 ^ 53 := by exact_mod_cast hfull.lt
      exact happrox.lt.trans_le hmantissa
    · refine hfull.full.imp_left fun hmantissa => ?_
      have hcast : (2 : ℚ) ^ 52 ≤ em.mantissa := by exact_mod_cast hmantissa
      exact hcast.trans happrox.le
  rw [hvalue]
  rcases roundWithAccuracy_cases hshift hfull s with
    ⟨hzero, hround⟩ | ⟨hpos, hsmall, hround⟩ | ⟨hcarry, hround⟩
  · refine iff_of_true (by rw [hround, isFinite_pack_zero]) (.inl ?_)
    rcases hfull.full with hmantissa | hleast <;> omega
  · have hrounded : IsFull em.roundedMantissa target :=
      ⟨hsmall, hfull.ge, hfull.full.imp_left fun hmantissa => hmantissa.trans hdown⟩
    rw [hround, isFinite_pack_iff hpos hrounded, le_iff_lt_or_eq]
    refine or_congr_right (iff_self_and.mpr fun _ => ?_)
    by_contra hle
    exact hsmall.ne (hceil (not_lt.mp hle))
  · have hrounded : IsFull (2 ^ 52) (target + 1) := by
      have hge := hfull.ge
      exact ⟨by norm_num, by omega, .inl (le_refl _)⟩
    rw [hround, isFinite_pack_iff (by norm_num) hrounded]
    rw [hcarry] at hnear
    push_cast at hnear
    have hge := hnear.not_gt
    constructor
    · exact fun hle => .inl (by omega)
    · rintro (hlt | ⟨-, hlt⟩)
      · omega
      · exact absurd hlt hge

end Rounding

section Decimals

variable {M k : ℕ}

/-- A decimal with so many places that it is read as zero is not too large. -/
theorem lt_tooLarge_of_places (h : 2048 + M.log2 < k) : (M : ℚ) / 10 ^ k < tooLarge := by
  have hlog : (M : ℚ) < 2 ^ (M.log2 + 1) := by exact_mod_cast Nat.lt_log2_self
  have hpower : (2 : ℚ) ^ (M.log2 + 1) ≤ 10 ^ k :=
    calc (2 : ℚ) ^ (M.log2 + 1) ≤ 2 ^ k := pow_le_pow_right₀ one_le_two (by omega)
      _ ≤ 10 ^ k := by gcongr; norm_num
  have hone : (M : ℚ) / 10 ^ k < 1 := by
    rw [div_lt_one (by positivity)]
    exact hlog.trans_le hpower
  exact hone.trans one_lt_tooLarge

/-- The model of a decimal is finite just when the decimal is not too large. -/
theorem isFinite_model_ofScientific_iff :
    (Float.Model.pack (UnpackedFloat.ofScientific Format.binary64 M (-k))).unpack.isFinite = true ↔
      (M : ℚ) / 10 ^ k < tooLarge := by
  have hbits : (2 : ℤ) ^ Format.binary64.exponentBits = 2048 := by decide
  rw [UnpackedFloat.ofScientific, hbits]
  split
  · rename_i hM
    refine iff_of_true (isFinite_pack_zero _) ?_
    rw [hM, Nat.cast_zero, zero_div]
    exact one_lt_tooLarge.trans' one_pos
  · rename_i hM
    rw [if_neg (by omega)]
    split
    · exact iff_of_true (isFinite_pack_zero _) (lt_tooLarge_of_places (by omega))
    · rcases Nat.eq_zero_or_pos k with rfl | hk
      · have hten : 10 ^ (-((0 : ℕ) : ℤ)).toNat = 1 := rfl
        obtain ⟨happrox, hbits⟩ := mul_one_spec (Nat.pos_of_ne_zero hM)
          (rfl : M <<< Format.binary64.mantissaBits = M <<< 53) hten
        rw [if_pos (by omega), pow_zero, div_one, UnpackedFloat.mul]
        exact isFinite_rounded_iff happrox hbits _
      · have hten : 10 ^ (- -(k : ℤ)).toNat = 10 ^ k := by rw [neg_neg, Int.toNat_natCast]
        rw [if_neg (by omega)]
        simp only [hten]
        obtain ⟨q, target, acc, hcore, happrox, hbits⟩ := divCore_spec 0 0 (Nat.pos_of_ne_zero hM)
          (by positivity : 0 < 10 ^ k) rfl
        simp only [UnpackedFloat.div, hcore]
        rw [isFinite_rounded_iff happrox hbits]
        simp

/-- A decimal is read as a finite double just when it is not too large. -/
theorem isFinite_ofScientific_iff :
    (Float.ofScientific M true k).isFinite = true ↔ (M : ℚ) / 10 ^ k < tooLarge := by
  unfold Float.ofScientific
  split
  · rename_i hfast
    obtain ⟨m₂, e₂, h₂, hpower, hpowerValue⟩ :=
      exists_powerOfTen_eq (isPowerOfTen_table ⟨k, by omega⟩)
    simp only [Fin.getElem_fin] at hpower
    simp only [if_true, hpower]
    rcases Nat.eq_zero_or_pos M with rfl | hM
    · have hzero : (0 : ℕ).toUInt64.toFloat = .ofModel (.pack (.zero .positive)) := by rfl
      rw [Nat.cast_zero, zero_div, hzero]
      refine iff_of_true ?_ (one_lt_tooLarge.trans' one_pos)
      show (Float.Model.pack (UnpackedFloat.div Format.binary64 (.zero .positive)
        (Float.Model.pack _).unpack)).unpack.isFinite = true
      rw [unpack_pack h₂, UnpackedFloat.div]
      exact isFinite_pack_zero _
    · obtain ⟨m₁, e₁, h₁, hwhole, hwholeValue⟩ := exists_toFloat_eq hM hfast.1
      obtain ⟨q, target, acc, hcore, happrox, hbits⟩ := divCore_spec e₁ e₂ h₁.pos h₂.pos rfl
      rw [hwholeValue, hpowerValue] at happrox
      rw [hwhole]
      show (Float.Model.pack (UnpackedFloat.div Format.binary64
        (Float.Model.pack _).unpack (Float.Model.pack _).unpack)).unpack.isFinite = true ↔ _
      rw [unpack_pack h₁, unpack_pack h₂]
      simp only [UnpackedFloat.div, hcore]
      exact isFinite_rounded_iff happrox hbits _
  · have hneg : Int.negOfNat k = -k := Int.negOfNat_eq
    simp only [if_true, hneg, Float.Model.ofScientific]
    exact isFinite_model_ofScientific_iff

/-- Negation keeps a double finite. -/
theorem isFinite_neg (x : Float) : (-x).isFinite = x.isFinite := by
  have hneg : (-x).toModel.unpack = (Float.Model.pack x.toModel.unpack.neg).unpack := rfl
  cases hx : x.isFinite with
  | true =>
    obtain ⟨q, hq⟩ := exists_holds hx
    change (-x).toModel.unpack.isFinite = true
    rw [hneg, hq.standsFor.neg.unpack_pack]
    exact hq.standsFor.neg.isFinite
  | false =>
    change x.toModel.unpack.isFinite = false at hx
    change (-x).toModel.unpack.isFinite = false
    rw [hneg]
    cases hu : x.toModel.unpack with
    | notANumber => rfl
    | infinity s => cases s <;> rfl
    | zero s =>
      rw [hu] at hx
      cases hx
    | finite s m e hpos =>
      rw [hu] at hx
      cases hx

/-- A numeral is read as a finite double just when it is not too large. -/
theorem Numeral.isFinite_value_iff (n : Numeral) :
    n.value.isFinite = true ↔ n.magnitude < tooLarge := by
  have hread : (Float.ofScientific (digitsValue (n.whole ++ n.fraction)) true
      n.fraction.length).isFinite = true ↔ n.magnitude < tooLarge := isFinite_ofScientific_iff
  rw [← hread, Numeral.value]
  cases n.negative with
  | false => rfl
  | true => exact iff_of_eq (congrArg (· = true) (isFinite_neg _))

/-- A numeral that is too large has no finite value. -/
theorem Numeral.isFinite_value_of_tooLarge (n : Numeral) (hlarge : tooLarge ≤ n.magnitude) :
    n.value.isFinite = false := by
  rw [← Bool.not_eq_true, n.isFinite_value_iff]
  exact not_lt.mpr hlarge

end Decimals

end IndicatorFormula.Decimal
