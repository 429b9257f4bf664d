import IndicatorFormula.Proofs.Decimal.Bits

/-!
# Reading decimals

A decimal is read by dividing a whole number by a power of ten and rounding once. So it
becomes the double to which its exact value is rounded.
-/

namespace IndicatorFormula.Decimal

open Float.Model Float.Model.UnpackedFloat

variable {m m₀ m₁ m₂ : ℕ} {e e₀ e₁ e₂ : ℤ} {v : ℚ}

/-- A quotient with the accuracy of its rest approximates the fraction. -/
theorem approximates_accuracyOfFraction (q : ℕ) {r d : ℕ} (h : r < d) :
    Approximates (.ofMantissaAndAccuracy q (accuracyOfFraction r d)) (q + r / d) := by
  have hd : (0 : ℚ) < d := by exact_mod_cast (Nat.zero_le r).trans_lt h
  have hlt : (r : ℚ) / d < 1 := by
    rw [div_lt_one hd]
    exact_mod_cast h
  rcases Nat.eq_zero_or_pos r with rfl | hr
  · simp [accuracyOfFraction, ExtendedMantissa.ofMantissaAndAccuracy, Approximates]
  · have hpos : (0 : ℚ) < r / d := div_pos (by exact_mod_cast hr) hd
    rw [accuracyOfFraction, if_neg hr.ne']
    rcases lt_trichotomy (2 * r) d with hcmp | hcmp | hcmp
    · have hhalf : (r : ℚ) / d < 1 / 2 := by
        rw [div_lt_div_iff₀ hd (by norm_num)]
        exact_mod_cast (by omega : r * 2 < 1 * d)
      simp only [compare_lt_iff_lt.mpr hcmp, ExtendedMantissa.ofMantissaAndAccuracy, Approximates]
      exact ⟨by linarith, by linarith⟩
    · have hhalf : (r : ℚ) / d = 1 / 2 := by
        rw [div_eq_div_iff hd.ne' (by norm_num)]
        exact_mod_cast (by omega : r * 2 = 1 * d)
      simp only [compare_eq_iff_eq.mpr hcmp, ExtendedMantissa.ofMantissaAndAccuracy, Approximates,
        hhalf]
    · have hhalf : 1 / 2 < (r : ℚ) / d := by
        rw [div_lt_div_iff₀ (by norm_num) hd]
        exact_mod_cast (by omega : 1 * d < r * 2)
      simp only [compare_gt_iff_gt.mpr hcmp, ExtendedMantissa.ofMantissaAndAccuracy, Approximates]
      exact ⟨by linarith, by linarith⟩

/-- A quotient of shifted mantissas has all bits of a double. -/
theorem le_shifted_div (h₁ : m₁ ≠ 0) (h₂ : 0 < m₂) {n : ℕ}
    (hn : m₂.log2 + 53 ≤ m₁.log2 + n) : 2 ^ 52 ≤ m₁ * 2 ^ n / m₂ := by
  rw [Nat.le_div_iff_mul_le h₂]
  calc 2 ^ 52 * m₂ ≤ 2 ^ 52 * 2 ^ (m₂.log2 + 1) :=
        Nat.mul_le_mul_left _ Nat.lt_log2_self.le
    _ = 2 ^ (m₂.log2 + 53) := by rw [← pow_add]; congr 1; omega
    _ ≤ 2 ^ (m₁.log2 + n) := Nat.pow_le_pow_right (by norm_num) hn
    _ = 2 ^ m₁.log2 * 2 ^ n := pow_add ..
    _ ≤ m₁ * 2 ^ n := Nat.mul_le_mul_right _ (Nat.log2_self_le h₁)

/-- A quotient is computed with enough bits. -/
theorem divCore_spec (e₁ e₂ : ℤ) (h₁ : 0 < m₁) (h₂ : 0 < m₂)
    (hv : v = m₁ * 2 ^ e₁ / (m₂ * 2 ^ e₂)) :
    ∃ q target acc, divCore Format.binary64 m₁ e₁ m₂ e₂ = (q, target, acc) ∧
      Approximates (.ofMantissaAndAccuracy q acc) (v / 2 ^ target) ∧
      target ≤ Format.binary64.targetExponent (totalExponent q target) := by
  rw [divCore]
  generalize htarget : min (e₁ - e₂) (Format.binary64.targetExponent
    (totalExponent m₁ e₁ - totalExponent m₂ e₂)) = target
  obtain ⟨n, hn⟩ : ∃ n : ℕ, e₁ - e₂ - target = n := ⟨(e₁ - e₂ - target).toNat, by omega⟩
  have hnat : (e₁ - e₂ - target).toNat = n := by omega
  refine ⟨_, _, _, rfl, ?_, ?_⟩
  · have hmod := Nat.mod_lt (m₁ <<< n) h₂
    have hquotient : v / 2 ^ target = (m₁ <<< n / m₂ : ℕ) + ((m₁ <<< n % m₂ : ℕ) : ℚ) / m₂ := by
      have hcast : (m₂ : ℚ) * (m₁ <<< n / m₂ : ℕ) + (m₁ <<< n % m₂ : ℕ) = m₁ * 2 ^ n := by
        rw [Nat.shiftLeft_eq]
        exact_mod_cast Nat.div_add_mod (m₁ * 2 ^ n) m₂
      have hm₂ : (m₂ : ℚ) ≠ 0 := by exact_mod_cast h₂.ne'
      have htwo : (2 : ℚ) ≠ 0 := by norm_num
      obtain rfl : e₁ = e₂ + target + n := by omega
      rw [hv, zpow_add₀ htwo, zpow_add₀ htwo, zpow_natCast]
      field_simp
      linarith
    rw [hnat, hquotient]
    exact approximates_accuracyOfFraction _ hmod
  · rw [hnat, Nat.shiftLeft_eq, targetExponent_binary64, totalExponent]
    rw [targetExponent_binary64, totalExponent, totalExponent] at htarget
    rcases lt_or_ge (-1074) target with hlarge | hsmall
    · have hbits := le_shifted_div h₁.ne' h₂ (n := n) (by omega)
      have hlog := (Nat.le_log2 (Nat.pos_of_ne_zero (by omega)).ne').mpr hbits
      omega
    · omega

/-- A quotient that is rounded to a double is that double. -/
theorem div_eq (h₁ : 0 < m₁) (h₂ : 0 < m₂) (hcanonical : IsCanonical m₀ e₀)
    (hv : RoundsTo (m₁ * 2 ^ e₁ / (m₂ * 2 ^ e₂)) m₀ e₀) :
    UnpackedFloat.div Format.binary64 (.finite .positive m₁ e₁ h₁) (.finite .positive m₂ e₂ h₂) =
      .finite .positive m₀ e₀ hcanonical.pos := by
  obtain ⟨q, target, acc, hcore, happrox, hbits⟩ := divCore_spec e₁ e₂ h₁ h₂ rfl
  simp only [UnpackedFloat.div, hcore]
  exact roundWithAccuracy_eq hcanonical happrox hbits hv _

/-- A whole number that fits a mantissa is converted exactly. -/
theorem exists_toFloat_eq {n : ℕ} (hpos : 0 < n) (hlt : n < 2 ^ 53) :
    ∃ (m : ℕ) (e : ℤ) (h : IsCanonical m e),
      n.toUInt64.toFloat = .ofModel (.pack (.finite .positive m e h.pos)) ∧
        (m : ℚ) * 2 ^ e = n := by
  have hlog : n.log2 < 53 := (Nat.log2_lt hpos.ne').mpr hlt
  obtain ⟨k, hk⟩ : ∃ k, n.log2 + k = 52 := ⟨52 - n.log2, by omega⟩
  have hcanonical : IsCanonical (n <<< k) (-k) := by
    have hfull : 2 ^ 52 ≤ n <<< k := by
      rw [Nat.shiftLeft_eq, ← hk, pow_add]
      exact Nat.mul_le_mul_right _ (Nat.log2_self_le hpos.ne')
    have hfits : n <<< k < 2 ^ 53 := by
      rw [Nat.shiftLeft_eq, show 53 = n.log2 + 1 + k by omega, pow_add]
      exact Nat.mul_lt_mul_of_pos_right Nat.lt_log2_self (by positivity)
    exact ⟨by omega, hfits, by omega, by omega, .inl hfull⟩
  have hvalue : ((n <<< k : ℕ) : ℚ) * 2 ^ (-k : ℤ) = n := by
    rw [Nat.shiftLeft_eq, zpow_neg, zpow_natCast]
    push_cast
    field_simp
  refine ⟨n <<< k, -k, hcanonical, ?_, hvalue⟩
  have hnat : n.toUInt64.toNat = n := UInt64.toNat_ofNat_of_lt (hlt.trans (by decide))
  have htarget : Format.binary64.targetExponent (totalExponent n 0) = -k := by
    rw [targetExponent_binary64, totalExponent]
    omega
  have hround : UnpackedFloat.round Format.binary64 .positive n 0 =
      .finite .positive (n <<< k) (-k) hcanonical.pos := by
    have hamount : ((0 : ℤ) - -k).toNat = k := by omega
    have hexponent : (0 : ℤ) - k = -k := by omega
    simp only [UnpackedFloat.round, htarget, decreaseExponent, hamount, hexponent]
    refine roundWithAccuracy_eq hcanonical ?_ hcanonical.le_targetExponent (.self _ _) _
    simp [ExtendedMantissa.ofMantissaAndAccuracy, Approximates]
  have hcompare : compare (n : ℤ) 0 = .gt := compare_gt_iff_gt.mpr (by omega)
  simp only [UInt64.toFloat, Float.Model.ofUInt64, UnpackedFloat.ofUInt64, UnpackedFloat.ofNat,
    UnpackedFloat.ofInt, UnpackedFloat.normalize, hnat, hcompare, Int.toNat_natCast, hround]

/-- Whether a double is a power of ten. -/
def isPowerOfTen (k : ℕ) (x : Float) : Bool :=
  match Exact.ofFloat x with
  | .finite negative m e =>
    !negative && 0 < m && -52 ≤ e && m * 2 ^ (e + 52).toNat = 10 ^ k * 2 ^ 52
  | _ => false

/-- The table holds the powers of ten. -/
theorem isPowerOfTen_table :
    ∀ k : Fin 23, isPowerOfTen k (Float.exactlyRepresentablePowersOfTen[k]) = true := by
  decide +kernel

/-- The tabulated powers of ten are exact. -/
theorem exists_powerOfTen_eq {x : Float} {k : ℕ} (h : isPowerOfTen k x = true) :
    ∃ (m : ℕ) (e : ℤ) (h : IsCanonical m e),
      x = .ofModel (.pack (.finite .positive m e h.pos)) ∧ (m : ℚ) * 2 ^ e = 10 ^ k := by
  unfold isPowerOfTen at h
  split at h
  · rename_i negative m e hx
    simp only [Bool.and_eq_true, Bool.not_eq_true', decide_eq_true_eq] at h
    obtain ⟨⟨⟨rfl, hpos⟩, hge⟩, hvalue⟩ := h
    obtain ⟨hcanonical, hpack⟩ := eq_pack_of_ofFloat hpos hx
    refine ⟨m, e, hcanonical, hpack, ?_⟩
    obtain ⟨n, hn⟩ : ∃ n : ℕ, e + 52 = n := ⟨(e + 52).toNat, by omega⟩
    obtain rfl : e = n - 52 := by omega
    rw [hn, Int.toNat_natCast] at hvalue
    have hcast : (m : ℚ) * 2 ^ n = 10 ^ k * 2 ^ 52 := by exact_mod_cast hvalue
    rw [zpow_sub₀ (by norm_num : (2 : ℚ) ≠ 0), zpow_natCast, ← mul_div_assoc, hcast]
    norm_num
  · cases h

variable {M k : ℕ}

/-- What rounds to a canonical double is not far below it. -/
theorem two_zpow_le_of_roundsTo (hcanonical : IsCanonical m₀ e₀) (hv : RoundsTo v m₀ e₀) :
    2 ^ (e₀ - 1) ≤ v := by
  have hhalf := hv.half_le
  have hpos : (1 : ℚ) ≤ m₀ := by exact_mod_cast hcanonical.pos
  have hge : (1 : ℚ) / 2 ≤ v / 2 ^ e₀ := by linarith
  rw [le_div_iff₀ (by positivity)] at hge
  rw [zpow_sub_one₀ (by norm_num)]
  linarith

/-- A decimal that is rounded to a double is not too small to be computed. -/
theorem le_of_roundsTo (hcanonical : IsCanonical m₀ e₀) (hv : RoundsTo (M / 10 ^ k) m₀ e₀) :
    k ≤ 2048 + M.log2 := by
  by_contra hk
  have htwo : (1 : ℚ) < 2 := by norm_num
  have hlog : (M : ℚ) ≤ 2 ^ (M.log2 + 1) := by exact_mod_cast Nat.lt_log2_self.le
  have hten : (2 : ℚ) ^ k ≤ 10 ^ k := by gcongr; norm_num
  have hsmall : (M : ℚ) / 10 ^ k ≤ 2 ^ ((M.log2 + 1 : ℕ) - (k : ℤ)) := by
    rw [zpow_sub₀ (by norm_num), zpow_natCast, zpow_natCast]
    gcongr
  have hlow := (two_zpow_le_of_roundsTo hcanonical hv).trans hsmall
  rw [zpow_le_zpow_iff_right₀ htwo] at hlow
  have hge := hcanonical.ge
  omega

/-- A whole number is computed as a product with one, with enough bits. -/
theorem mul_one_spec (hM : 0 < M) {M' d : ℕ} (hM' : M' = M <<< 53) (hd : d = 1) :
    Approximates (.ofMantissaAndAccuracy (M' * d) .exact) ((M : ℚ) / 2 ^ (-53 + 0 : ℤ)) ∧
      (-53 + 0 : ℤ) ≤ Format.binary64.targetExponent (totalExponent (M' * d) (-53 + 0)) := by
  have hlarge : 2 ^ 53 ≤ M' * d := by
    rw [hM', hd, Nat.mul_one, Nat.shiftLeft_eq]
    exact Nat.le_mul_of_pos_left _ hM
  have hcast : ((M' * d : ℕ) : ℚ) = M * 2 ^ 53 := by
    rw [hM', hd, Nat.mul_one, Nat.shiftLeft_eq]
    push_cast
    rfl
  have hvalue : (M : ℚ) / 2 ^ (-53 + 0 : ℤ) = (M' * d : ℕ) := by
    rw [hcast, add_zero, zpow_neg, div_inv_eq_mul]
    rfl
  refine ⟨hvalue, ?_⟩
  have hne : M' * d ≠ 0 := (Nat.pos_of_ne_zero (by omega)).ne'
  have hlog := (Nat.le_log2 hne).mpr hlarge
  rw [targetExponent_binary64, totalExponent]
  omega

/-- A whole number is rounded as a product with one. -/
theorem mul_one_eq (hM : 0 < M) (hcanonical : IsCanonical m₀ e₀) (hv : RoundsTo M m₀ e₀)
    {M' d : ℕ} (hM' : M' = M <<< 53) (hd : d = 1) (hpos : 0 < M') (hdpos : 0 < d) :
    UnpackedFloat.mul Format.binary64 (.finite .positive M' (-53) hpos)
        (.finite .positive d 0 hdpos) = .finite .positive m₀ e₀ hcanonical.pos := by
  obtain ⟨happrox, hbits⟩ := mul_one_spec hM hM' hd
  rw [UnpackedFloat.mul]
  exact roundWithAccuracy_eq hcanonical happrox hbits hv _

/-- The model of a decimal divides by the power of ten. -/
theorem model_ofScientific_eq (hM : 0 < M) (hcanonical : IsCanonical m₀ e₀)
    (hv : RoundsTo (M / 10 ^ k) m₀ e₀) :
    UnpackedFloat.ofScientific Format.binary64 M (-k) =
      .finite .positive m₀ e₀ hcanonical.pos := by
  have hrange := le_of_roundsTo hcanonical hv
  have hbits : (2 : ℤ) ^ Format.binary64.exponentBits = 2048 := by decide
  rw [UnpackedFloat.ofScientific, dif_neg hM.ne', hbits, if_neg (by omega), if_neg (by omega)]
  rcases Nat.eq_zero_or_pos k with rfl | hk
  · have hten : 10 ^ (-((0 : ℕ) : ℤ)).toNat = 1 := rfl
    rw [if_pos (by omega)]
    exact mul_one_eq hM hcanonical (by simpa using hv) rfl hten _ _
  · have hten : 10 ^ (- -(k : ℤ)).toNat = 10 ^ k := by rw [neg_neg, Int.toNat_natCast]
    rw [if_neg (by omega)]
    simp only [hten]
    exact div_eq hM _ hcanonical (by simpa using hv)

/-- A decimal is read as the double to which its exact value is rounded. -/
theorem ofScientific_eq (hcanonical : IsCanonical m₀ e₀) (hv : RoundsTo (M / 10 ^ k) m₀ e₀) :
    Float.ofScientific M true k = .ofModel (.pack (.finite .positive m₀ e₀ hcanonical.pos)) := by
  have hM : 0 < M := by
    refine Nat.pos_of_ne_zero ?_
    rintro rfl
    have hpos : (0 : ℚ) < 2 ^ (e₀ - 1) := by positivity
    have hle := two_zpow_le_of_roundsTo hcanonical hv
    simp only [Nat.cast_zero, zero_div] at hle
    linarith
  unfold Float.ofScientific
  split
  · rename_i hfast
    obtain ⟨m₁, e₁, h₁, hwhole, hwholeValue⟩ := exists_toFloat_eq hM hfast.1
    obtain ⟨m₂, e₂, h₂, hpower, hpowerValue⟩ :=
      exists_powerOfTen_eq (isPowerOfTen_table ⟨k, by omega⟩)
    simp only [Fin.getElem_fin] at hpower
    simp only [if_true, hwhole, hpower]
    have hdiv := div_eq h₁.pos h₂.pos hcanonical (by rwa [hwholeValue, hpowerValue])
    show Float.ofModel (.pack (UnpackedFloat.div Format.binary64
      (Float.Model.pack _).unpack (Float.Model.pack _).unpack)) = _
    rw [unpack_pack h₁, unpack_pack h₂, hdiv]
  · have hneg : Int.negOfNat k = -k := Int.negOfNat_eq
    simp only [if_true, hneg, Float.Model.ofScientific, model_ofScientific_eq hM hcanonical hv]

end IndicatorFormula.Decimal
