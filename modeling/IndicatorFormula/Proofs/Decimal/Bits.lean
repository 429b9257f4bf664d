import IndicatorFormula.Decimal.Exact
import IndicatorFormula.Proofs.Decimal.Nearest

/-!
# The bits of a double
-/

namespace IndicatorFormula.Decimal

open Float.Model Float.Model.UnpackedFloat

theorem toNat_unpackExponent (b : BitVec Format.binary64.numBits) :
    (unpackExponent b).toNat = b.toNat / 2 ^ 52 % 2 ^ 11 := by
  simp [unpackExponent, Nat.shiftRight_eq_div_pow]

theorem toNat_unpackSign (b : BitVec Format.binary64.numBits) :
    (unpackSign b).toNat = b.toNat / 2 ^ 63 % 2 := by
  simp [unpackSign, Nat.shiftRight_eq_div_pow]

/-- Packed bits are sign, exponent and mantissa, one above the other. -/
theorem toNat_packComponents (s : Sign) (e : BitVec 11) (m : BitVec 52) :
    (packComponents Format.binary64 s e m).toNat =
      s.toBitVec.toNat * 2 ^ 63 + e.toNat * 2 ^ 52 + m.toNat := by
  simp only [packComponents, BitVec.toNat_append]
  rw [← Nat.shiftLeft_add_eq_or_of_lt e.isLt, ← Nat.shiftLeft_add_eq_or_of_lt m.isLt]
  simp only [Nat.shiftLeft_eq]
  ring

/-- The sign is unpacked as it was packed. -/
theorem unpackSign_packComponents (s : Sign) (e : BitVec 11) (m : BitVec 52) :
    Sign.ofBitVec (unpackSign (packComponents Format.binary64 s e m)) = s := by
  have hsign : unpackSign (packComponents Format.binary64 s e m) = s.toBitVec := by
    apply BitVec.eq_of_toNat_eq
    rw [toNat_unpackSign, toNat_packComponents]
    have he := e.isLt
    have hm := m.isLt
    have hs := s.toBitVec.isLt
    omega
  rw [hsign]
  cases s <;> rfl

/-- The sign of a number. -/
def signOf (negative : Bool) : Sign := if negative then .negative else .positive

variable {m : ℕ} {e : ℤ}

/-- The exponent field of a double. -/
def biased (e : ℤ) : ℕ := (e + 1075).toNat

/-- A full mantissa is packed with its biased exponent. -/
theorem pack_of_full (h : IsCanonical m e) (hfull : 2 ^ 52 ≤ m) (s : Sign) :
    UnpackedFloat.pack Format.binary64 (.finite s m e h.pos) =
      packComponents Format.binary64 s (BitVec.ofNat 11 (biased e)) (BitVec.ofNat 52 m) := by
  have hlog : m.log2 = 52 := (Nat.log2_eq_iff h.pos.ne').mpr ⟨hfull, h.lt⟩
  have hbiased : (e + (1023 : ℕ) + (52 : ℕ)).toNat = biased e := by
    rw [biased]
    congr 1
    omega
  have hrange : ¬2 ^ 11 ≤ biased e + 1 := by
    have hge := h.ge
    have hle := h.le
    rw [biased]
    omega
  have hbias : Format.binary64.exponentBias = 1023 := rfl
  have hbits : Format.binary64.mantissaBits = 53 := rfl
  simp only [UnpackedFloat.pack, hbias, hbits, hbiased, hlog, if_neg hrange, if_true]

/-- A mantissa that is not full is packed with the exponent zero. -/
theorem pack_of_small (h : IsCanonical m e) (hsmall : m < 2 ^ 52) (s : Sign) :
    UnpackedFloat.pack Format.binary64 (.finite s m e h.pos) =
      packComponents Format.binary64 s 0 (BitVec.ofNat 52 m) := by
  have hlog : ¬m.log2 + 1 = 53 := by
    have hlt := (Nat.log2_lt h.pos.ne').mpr hsmall
    omega
  obtain rfl : e = -1074 := h.full.resolve_left (by omega)
  have hbias : Format.binary64.exponentBias = 1023 := rfl
  have hbits : Format.binary64.mantissaBits = 53 := rfl
  have hrange : ¬2 ^ 11 ≤ (-1074 + (1023 : ℕ) + (52 : ℕ) : ℤ).toNat + 1 := by decide
  simp only [UnpackedFloat.pack, hbias, hbits, if_neg hrange, if_neg hlog]
  rfl

/-- A mantissa that is not full is unpacked as it was packed. -/
private theorem unpack_pack_of_small (h : IsCanonical m e) (hsmall : m < 2 ^ 52) (s : Sign) :
    UnpackedFloat.unpack Format.binary64
      (UnpackedFloat.pack Format.binary64 (.finite s m e h.pos)) = .finite s m e h.pos := by
  obtain rfl : e = -1074 := h.full.resolve_left (by omega)
  have hzero : BitVec.ofNat 52 m ≠ 0#52 := by
    intro hm
    have hnat := congrArg BitVec.toNat hm
    have hpos := h.pos
    simp only [BitVec.toNat_ofNat] at hnat
    omega
  have hbias : Format.binary64.exponentBias = 1023 := rfl
  rw [pack_of_small h hsmall]
  simp only [UnpackedFloat.unpack, unpackExponent_packComponents, unpackMantissa_packComponents,
    unpackSign_packComponents]
  refine (if_neg (by decide)).trans ((if_pos rfl).trans ((dif_neg hzero).trans ?_))
  simp only [UnpackedFloat.finite.injEq, true_and, BitVec.toNat_ofNat, hbias]
  exact ⟨Nat.mod_eq_of_lt hsmall, by decide⟩

/-- A full mantissa is unpacked as it was packed. -/
private theorem unpack_pack_of_full (h : IsCanonical m e) (hfull : 2 ^ 52 ≤ m) (s : Sign) :
    UnpackedFloat.unpack Format.binary64
      (UnpackedFloat.pack Format.binary64 (.finite s m e h.pos)) = .finite s m e h.pos := by
  have hge := h.ge
  have hle := h.le
  have hlt := h.lt
  have hnat : (BitVec.ofNat 11 (biased e)).toNat = biased e := by
    rw [BitVec.toNat_ofNat, biased]
    omega
  have hones : BitVec.ofNat 11 (biased e) ≠ -1#11 := by
    intro hb
    have hval := congrArg BitVec.toNat hb
    rw [hnat, biased] at hval
    simp only [BitVec.reduceNeg, BitVec.reduceToNat] at hval
    omega
  have hzeros : BitVec.ofNat 11 (biased e) ≠ 0#11 := by
    intro hb
    have hval := congrArg BitVec.toNat hb
    rw [hnat, biased] at hval
    simp only [BitVec.reduceToNat] at hval
    omega
  have hbias : Format.binary64.exponentBias = 1023 := rfl
  rw [pack_of_full h hfull]
  simp only [UnpackedFloat.unpack, unpackExponent_packComponents, unpackMantissa_packComponents,
    unpackSign_packComponents]
  rw [if_neg hones, if_neg hzeros]
  simp only [UnpackedFloat.finite.injEq, true_and, hbias, hnat, BitVec.toNat_append,
    BitVec.toNat_ofNat]
  constructor
  · rw [← Nat.shiftLeft_add_eq_or_of_lt (Nat.mod_lt _ (by decide)), Nat.shiftLeft_eq]
    omega
  · rw [biased]
    omega

/-- A double other than zero is unpacked as it was packed. -/
theorem unpack_pack (h : IsCanonical m e) (s : Sign) :
    (Float.Model.pack (.finite s m e h.pos)).unpack = .finite s m e h.pos := by
  show UnpackedFloat.unpack Format.binary64 (UnpackedFloat.pack Format.binary64 _) = _
  rcases Nat.lt_or_ge m (2 ^ 52) with hsmall | hfull
  · exact unpack_pack_of_small h hsmall s
  · exact unpack_pack_of_full h hfull s

/-- A number with the bits of a packed one is that. -/
theorem eq_ofModel_pack {x : Float} {u : UnpackedFloat}
    (h : x.toBits.toNat = (UnpackedFloat.pack Format.binary64 u).toNat) :
    x = .ofModel (.pack u) := by
  obtain ⟨⟨bits, valid⟩⟩ := x
  have hbits : bits = UInt64.ofBitVec (UnpackedFloat.pack Format.binary64 u) :=
    UInt64.toNat_inj.mp h
  subst hbits
  rfl

/-- The sign of a bit has that bit. -/
theorem toNat_signOf {n : ℕ} (hn : n < 2) : (signOf (n == 1)).toBitVec.toNat = n := by
  obtain rfl | rfl : n = 0 ∨ n = 1 := by omega
  · rfl
  · rfl

/-- A finite double other than zero is packed from its exact value. -/
theorem eq_pack_of_ofFloat {x : Float} {negative : Bool} (hpos : 0 < m)
    (h : Exact.ofFloat x = .finite negative m e) :
    ∃ hcanonical : IsCanonical m e,
      x = .ofModel (.pack (.finite (signOf negative) m e hcanonical.pos)) := by
  have hbits : x.toBits.toNat < 2 ^ 64 := x.toBits.toNat_lt
  simp only [Exact.ofFloat, Nat.pow_eq] at h
  generalize hx : x.toBits.toNat = bits at h hbits
  have hsign := toNat_signOf (show bits / 2 ^ 63 < 2 by omega)
  split at h
  · split at h <;> cases h
  · rename_i hfinite
    split at h
    · rename_i hzero
      cases h
      have hcanonical : IsCanonical (bits % 2 ^ 52) (-1074) :=
        ⟨hpos, by omega, by omega, by omega, .inr rfl⟩
      refine ⟨hcanonical, eq_ofModel_pack ?_⟩
      rw [pack_of_small hcanonical (by omega), toNat_packComponents, hsign, hx, BitVec.toNat_ofNat]
      show bits = bits / 2 ^ 63 * 2 ^ 63 + 0 * 2 ^ 52 + bits % 2 ^ 52 % 2 ^ 52
      omega
    · rename_i hnonzero
      cases h
      have hcanonical : IsCanonical (2 ^ 52 + bits % 2 ^ 52)
          ((bits / 2 ^ 52 % 2 ^ 11 : ℕ) - 1075) :=
        ⟨hpos, by omega, by omega, by omega, .inl (by omega)⟩
      refine ⟨hcanonical, eq_ofModel_pack ?_⟩
      rw [pack_of_full hcanonical (by omega), toNat_packComponents, hsign, hx, BitVec.toNat_ofNat,
        BitVec.toNat_ofNat, biased]
      omega

/-- A zero is packed as such. -/
theorem eq_zero_of_ofFloat {x : Float} {negative : Bool}
    (h : Exact.ofFloat x = .finite negative 0 e) :
    x = .ofModel (.pack (.zero (signOf negative))) := by
  have hbits : x.toBits.toNat < 2 ^ 64 := x.toBits.toNat_lt
  simp only [Exact.ofFloat, Nat.pow_eq] at h
  generalize hx : x.toBits.toNat = bits at h hbits
  have hsign := toNat_signOf (show bits / 2 ^ 63 < 2 by omega)
  split at h
  · split at h <;> cases h
  · split at h
    · rename_i hzero
      simp only [Exact.finite.injEq] at h
      obtain ⟨rfl, hfraction, -⟩ := h
      refine eq_ofModel_pack ?_
      rw [UnpackedFloat.pack, packedZero, toNat_packComponents, hsign, hx]
      show bits = bits / 2 ^ 63 * 2 ^ 63 + 0 * 2 ^ 52 + 0
      omega
    · simp only [Exact.finite.injEq] at h
      omega

/-- A finite double equals itself. -/
theorem beq_self_of_isFinite {x : Float} (h : x.isFinite = true) : (x == x) = true := by
  have hself : ∀ u : UnpackedFloat, u.isFinite = true → u.beq u = true := by
    rintro (_ | s | s | ⟨s, m, e, hm⟩) hu
    · cases hu
    · cases hu
    · rfl
    · cases s <;> simp [UnpackedFloat.beq, UnpackedFloat.compare]
  exact hself _ h

/-- A finite double is a number. -/
theorem isNaN_eq_false_of_isFinite {x : Float} (h : x.isFinite = true) : x.isNaN = false := by
  have hnumber : ∀ u : UnpackedFloat, u.isFinite = true → u.isNaN = false := by
    rintro (_ | s | s | ⟨s, m, e, hm⟩) hu
    · cases hu
    · cases hu
    · rfl
    · rfl
  exact hnumber _ h

/-- A double that is finite has an exact value. -/
theorem ofFloat_of_isFinite {x : Float} (h : x.isFinite = true) :
    ∃ negative m e, Exact.ofFloat x = .finite negative m e := by
  have hexponent : x.toBits.toNat / 2 ^ 52 % 2 ^ 11 ≠ 2047 := by
    intro hx
    have hones : @unpackExponent Format.binary64 x.toModel.toBits.toBitVec = -1#11 := by
      apply BitVec.eq_of_toNat_eq
      rw [toNat_unpackExponent]
      exact hx
    have hnot : x.toModel.unpack.isFinite = false := by
      simp only [Float.Model.unpack, UnpackedFloat.unpack, hones, if_true]
      split <;> rfl
    exact Bool.false_ne_true (hnot.symm.trans h)
  simp only [Exact.ofFloat, Nat.pow_eq, if_neg hexponent]
  split <;> exact ⟨_, _, _, rfl⟩

/-- Only a value with the greatest exponent can be undefined. -/
theorem isNaN_unpack_packComponents {s : Sign} {e : BitVec 11} {m : BitVec 52} (h : e ≠ -1#11) :
    (UnpackedFloat.unpack Format.binary64
      (packComponents Format.binary64 s e m)).isNaN = false := by
  simp only [UnpackedFloat.unpack, unpackExponent_packComponents]
  rw [if_neg h]
  split
  · split <;> rfl
  · rfl

/-- What is packed of a number is a number. -/
theorem isNaN_pack {u : UnpackedFloat} (h : u.isNaN = false) :
    (Float.Model.pack u).isNaN = false := by
  have hinfinity (s : Sign) : (UnpackedFloat.unpack Format.binary64
      (packedInfinity Format.binary64 s)).isNaN = false := by
    cases s <;> decide
  change (UnpackedFloat.unpack Format.binary64 (UnpackedFloat.pack Format.binary64 u)).isNaN = false
  cases u with
  | notANumber => cases h
  | infinity s => exact hinfinity s
  | zero s => cases s <;> decide
  | finite s m e hpos =>
    simp only [UnpackedFloat.pack]
    generalize (e + (Format.binary64.exponentBias : ℤ) +
      (Format.binary64.mantissaBitsWithoutImplicit : ℤ)).toNat = field
    split
    · exact hinfinity s
    · rename_i hrange
      split
      · refine isNaN_unpack_packComponents fun hones => hrange ?_
        have hfield : field % 2 ^ 11 = 2047 := by simpa using congrArg BitVec.toNat hones
        change 2 ^ 11 ≤ field + 1
        omega
      · exact isNaN_unpack_packComponents (by decide)

/-- Rounding gives a number. -/
theorem isNaN_roundWithAccuracy (s : Sign) (m : ℕ) (e : ℤ) (a : Accuracy) :
    (roundWithAccuracy Format.binary64 s m e a).isNaN = false := by
  simp only [roundWithAccuracy]
  split <;> rfl

/-- A product with a factor that is neither zero nor infinite is a number if the other factor
is one. -/
theorem isNaN_mul_finite {u : UnpackedFloat} (h : u.isNaN = false) (s : Sign) (hpos : 0 < m) :
    (u.mul Format.binary64 (.finite s m e hpos)).isNaN = false := by
  cases u with
  | notANumber => cases h
  | infinity s' => rfl
  | zero s' => rfl
  | finite s' m' e' hpos' => exact isNaN_roundWithAccuracy ..

/-- A natural number is a number. -/
theorem isNaN_ofUInt64 (n : UInt64) : (UnpackedFloat.ofUInt64 Format.binary64 n).isNaN = false := by
  simp only [UnpackedFloat.ofUInt64, UnpackedFloat.ofNat, UnpackedFloat.ofInt,
    UnpackedFloat.normalize, UnpackedFloat.round]
  split
  · exact isNaN_roundWithAccuracy ..
  · rfl
  · exact isNaN_roundWithAccuracy ..

/-- A decimal fraction without exponent is a number. -/
theorem isNaN_ofScientific_zero (n : ℕ) :
    (UnpackedFloat.ofScientific Format.binary64 n 0).isNaN = false := by
  have hbits : (2 : ℤ) ^ Format.binary64.exponentBits = 2048 := by decide
  unfold UnpackedFloat.ofScientific
  split
  · rfl
  · rw [hbits, if_neg (by decide), if_neg (by omega), if_pos (le_refl _)]
    exact isNaN_mul_finite rfl ..

/-- A whole number is converted to a number, however large it is. -/
theorem isNaN_toFloat (n : ℕ) : n.toFloat.isNaN = false := by
  change (Float.ofScientific n false 0).isNaN = false
  unfold Float.ofScientific
  split
  · obtain ⟨s, m, e, hpos, hone⟩ : ∃ s m e hpos,
        (Float.exactlyRepresentablePowersOfTen[0]).toModel.unpack = .finite s m e hpos :=
      ⟨_, _, _, _, by rfl⟩
    change (Float.Model.pack (UnpackedFloat.mul Format.binary64 (Float.Model.pack _).unpack
      (Float.exactlyRepresentablePowersOfTen[0]).toModel.unpack)).isNaN = false
    rw [hone]
    exact isNaN_pack (isNaN_mul_finite (isNaN_pack (isNaN_ofUInt64 _)) s hpos)
  · exact isNaN_pack (isNaN_ofScientific_zero n)

end IndicatorFormula.Decimal
