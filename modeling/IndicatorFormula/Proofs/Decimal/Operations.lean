import IndicatorFormula.Arith
import IndicatorFormula.Proofs.Decimal.Scientific

/-!
# Exact operations on doubles

A sum, difference, product or quotient of doubles is rounded once. So it is exact whenever the
exact result is itself a number that a double can hold.
-/

namespace IndicatorFormula.Decimal

open Float.Model Float.Model.UnpackedFloat

/-- One with a sign. -/
def unit : Sign → ℚ
  | .positive => 1
  | .negative => -1

/-- A number that a double can hold. -/
def IsDouble (q : ℚ) : Prop := q = 0 ∨ ∃ m e, IsCanonical m e ∧ |q| = m * 2 ^ e

/-- What is unpacked of a double stands for a number. -/
inductive StandsFor : UnpackedFloat → ℚ → Prop
  /-- A zero of either sign. -/
  | zero (s : Sign) : StandsFor (.zero s) 0
  /-- Any other number. -/
  | finite (s : Sign) {m : ℕ} {e : ℤ} (h : IsCanonical m e) :
    StandsFor (.finite s m e h.pos) (unit s * (m * 2 ^ e))

/-- A double holds a number. -/
def Holds (x : Float) (q : ℚ) : Prop := ∃ u, StandsFor u q ∧ x = .ofModel (.pack u)

variable {u v : UnpackedFloat} {x y z : Float} {p q t : ℚ} {m : ℕ} {e : ℤ} {acc : Accuracy}

/-- A model of a fraction is unpacked as it was packed. -/
theorem StandsFor.unpack_pack (h : StandsFor u q) : (Float.Model.pack u).unpack = u := by
  cases h with
  | zero s => cases s <;> rfl
  | finite s h => exact Decimal.unpack_pack h s

theorem StandsFor.isFinite (h : StandsFor u q) : u.isFinite = true := by
  cases h <;> rfl

theorem Holds.standsFor (h : Holds x q) : StandsFor x.toModel.unpack q := by
  obtain ⟨u, hu, rfl⟩ := h
  exact hu.unpack_pack.symm ▸ hu

theorem Holds.isFinite (h : Holds x q) : x.isFinite = true := h.standsFor.isFinite

/-- Every finite double holds a number. -/
theorem exists_holds (h : x.isFinite = true) : ∃ q, Holds x q := by
  obtain ⟨negative, m, e, hx⟩ := ofFloat_of_isFinite h
  rcases Nat.eq_zero_or_pos m with rfl | hpos
  · exact ⟨0, _, .zero _, eq_zero_of_ofFloat hx⟩
  · obtain ⟨hcanonical, hpack⟩ := eq_pack_of_ofFloat hpos hx
    exact ⟨_, _, .finite _ hcanonical, hpack⟩

theorem unit_mul : ∀ s s' : Sign, unit (s * s') = unit s * unit s'
  | .positive, .positive => (one_mul 1).symm
  | .positive, .negative => (one_mul (-1)).symm
  | .negative, .positive => (mul_one (-1)).symm
  | .negative, .negative => show (1 : ℚ) = -1 * -1 by norm_num

theorem unit_div : ∀ s s' : Sign, unit (s / s') = unit s / unit s'
  | .positive, .positive => (div_one 1).symm
  | .positive, .negative => show (-1 : ℚ) = 1 / -1 by norm_num
  | .negative, .positive => (div_one (-1)).symm
  | .negative, .negative => show (1 : ℚ) = -1 / -1 by norm_num

theorem unit_neg : ∀ s : Sign, unit (-s) = -unit s
  | .positive => rfl
  | .negative => (neg_neg 1).symm

theorem isDouble_unit_mul {s : Sign} : IsDouble (unit s * t) ↔ IsDouble t := by
  cases s <;> simp [unit, IsDouble]

theorem cast_apply (s : Sign) (M : ℤ) : ((s.apply M : ℤ) : ℚ) = unit s * M := by
  cases s <;> simp [unit, Sign.apply]

/-- A canonical double is positive. -/
theorem IsCanonical.two_zpow_pos (h : IsCanonical m e) : (0 : ℚ) < m * 2 ^ e := by
  have := h.pos
  positivity

/-- What is rounded stays as it is if a double can hold it. -/
theorem standsFor_rounded (ht : 0 < t) (h : IsDouble t) (s : Sign)
    (happrox : Approximates (.ofMantissaAndAccuracy m acc) (t / 2 ^ e))
    (hbits : e ≤ Format.binary64.targetExponent (totalExponent m e)) :
    StandsFor (roundWithAccuracy Format.binary64 s m e acc) (unit s * t) := by
  obtain ⟨m₀, e₀, hcanonical, habs⟩ := h.resolve_left ht.ne'
  rw [abs_of_pos ht] at habs
  rw [roundWithAccuracy_eq hcanonical happrox hbits (habs ▸ .self m₀ e₀) s, habs]
  exact .finite s hcanonical

/-- A shift to the left adds to the logarithm. -/
theorem log2_shiftLeft (hm : m ≠ 0) (k : ℕ) : (m <<< k).log2 = m.log2 + k := by
  rw [Nat.shiftLeft_eq, Nat.log2_eq_iff (by positivity), pow_add, pow_add, pow_add, pow_one]
  have hle := Nat.log2_self_le hm
  have hlt := Nat.lt_log2_self (n := m)
  rw [pow_succ] at hlt
  have hpos : 0 < 2 ^ k := by positivity
  constructor <;> nlinarith

/-- What is rounded is given enough bits first, and stays the number that it was. -/
theorem exists_round_eq (hm : m ≠ 0) (s : Sign) : ∃ (n : ℕ) (f : ℤ), n ≠ 0 ∧
    (n : ℚ) * 2 ^ f = m * 2 ^ e ∧ f ≤ Format.binary64.targetExponent (totalExponent n f) ∧
    UnpackedFloat.round Format.binary64 s m e =
      roundWithAccuracy Format.binary64 s n f .exact := by
  simp only [UnpackedFloat.round, decreaseExponent]
  generalize htarget : Format.binary64.targetExponent (totalExponent m e) = target
  generalize hk : (e - target).toNat = k
  have htotal : totalExponent (m <<< k) (e - k) = totalExponent m e := by
    rw [totalExponent, totalExponent, log2_shiftLeft hm]
    push_cast
    ring
  refine ⟨m <<< k, e - k, ?_, ?_, ?_, rfl⟩
  · rw [Nat.shiftLeft_eq]
    positivity
  · rw [zpow_sub₀ (by norm_num), zpow_natCast, Nat.shiftLeft_eq]
    push_cast
    field_simp
  · rw [htotal, htarget]
    omega

/-- A double is rounded to itself, with any sign. -/
theorem standsFor_round (hm : m ≠ 0) (h : IsDouble (m * 2 ^ e)) (s : Sign) :
    StandsFor (UnpackedFloat.round Format.binary64 s m e) (unit s * (m * 2 ^ e)) := by
  obtain ⟨n, f, -, hvalue, hbits, hround⟩ := exists_round_eq hm s
  rw [hround]
  refine standsFor_rounded (by positivity) h s ?_ hbits
  rw [← hvalue]
  exact mul_div_cancel_right₀ _ (by positivity)

/-- A double is normalized to itself. -/
theorem standsFor_normalize {M : ℤ} (h : IsDouble (M * 2 ^ e)) (s : Sign) :
    StandsFor (UnpackedFloat.normalize Format.binary64 M e s) (M * 2 ^ e) := by
  have hround {m : ℕ} (s : Sign) (hm : m ≠ 0) (hM : M = s.apply m) :
      StandsFor (UnpackedFloat.round Format.binary64 s m e) (M * 2 ^ e) := by
    rw [hM, cast_apply, Int.cast_natCast, mul_assoc] at h ⊢
    exact standsFor_round hm (isDouble_unit_mul.mp h) s
  simp only [UnpackedFloat.normalize]
  rcases lt_trichotomy M 0 with hM | rfl | hM
  · simp only [compare_lt_iff_lt.mpr hM]
    exact hround .negative (by omega) (by simp only [Sign.apply]; omega)
  · simp only [compare_eq_iff_eq.mpr, Int.cast_zero, zero_mul]
    exact .zero s
  · simp only [compare_gt_iff_gt.mpr hM]
    exact hround .positive (by omega) (by simp only [Sign.apply]; omega)

/-- Mantissas that are brought to the lesser exponent stand for what they stood for. -/
theorem cast_decreaseExponent {e' : ℤ} (hle : e' ≤ e) :
    (((decreaseExponent m e e').1 : ℕ) : ℚ) * 2 ^ e' = m * 2 ^ e := by
  obtain ⟨k, rfl⟩ : ∃ k : ℕ, e = e' + k := ⟨(e - e').toNat, by omega⟩
  have hk : (e' + (k : ℤ) - e').toNat = k := by omega
  simp only [decreaseExponent, hk, Nat.shiftLeft_eq]
  rw [zpow_add₀ (by norm_num), zpow_natCast]
  push_cast
  ring

/-- The sum of models stands for the sum, if this is a double. -/
theorem StandsFor.add (hu : StandsFor u p) (hv : StandsFor v q) (h : IsDouble (p + q)) :
    StandsFor (UnpackedFloat.add Format.binary64 u v) (p + q) := by
  cases hu with
  | zero s =>
    cases hv with
    | zero s' =>
      rw [UnpackedFloat.add, add_zero]
      split <;> exact .zero _
    | finite s' hcanonical =>
      rw [zero_add]
      exact .finite s' hcanonical
  | @finite s m e hm =>
    cases hv with
    | zero s' =>
      rw [add_zero]
      exact .finite s hm
    | @finite s' m' e' hm' =>
      have hvalue : unit s * (m * 2 ^ e) + unit s' * (m' * 2 ^ e') =
          ((s.apply (decreaseExponent m e (min e e')).1 +
            s'.apply (decreaseExponent m' e' (min e e')).1 : ℤ) : ℚ) * 2 ^ min e e' := by
        rw [← cast_decreaseExponent (min_le_left e e'), ← cast_decreaseExponent (min_le_right e e')]
        push_cast [cast_apply]
        ring
      rw [hvalue] at h ⊢
      exact standsFor_normalize h .positive

/-- The negative of a model stands for the negative. -/
theorem StandsFor.neg (h : StandsFor u q) : StandsFor u.neg (-q) := by
  cases h with
  | zero s =>
    rw [neg_zero]
    exact .zero (-s)
  | @finite s m e h =>
    rw [← neg_mul, ← unit_neg]
    exact .finite (-s) h

/-- A difference is the sum with the negative. -/
theorem sub_eq_add (u v : UnpackedFloat) :
    UnpackedFloat.sub Format.binary64 u v = UnpackedFloat.add Format.binary64 u v.neg := by
  have happly (s s' : Sign) (m m' : ℤ) :
      s.apply m - s'.apply m' = s.apply m + (-s').apply m' := by
    cases s' with
    | negative => exact sub_neg_eq_add _ _
    | positive => exact sub_eq_add_neg _ _
  cases u <;> cases v <;> try rfl
  simp only [UnpackedFloat.sub, UnpackedFloat.add, UnpackedFloat.neg, happly]

/-- The difference of models stands for the difference, if this is a double. -/
theorem StandsFor.sub (hu : StandsFor u p) (hv : StandsFor v q) (h : IsDouble (p - q)) :
    StandsFor (UnpackedFloat.sub Format.binary64 u v) (p - q) := by
  rw [sub_eq_add]
  rw [sub_eq_add_neg] at h ⊢
  exact hu.add hv.neg h

/-- A product has enough bits. -/
theorem IsCanonical.mul_bits {m' : ℕ} {e' : ℤ} (h : IsCanonical m e) (h' : IsCanonical m' e') :
    e + e' ≤ Format.binary64.targetExponent (totalExponent (m * m') (e + e')) := by
  rw [targetExponent_binary64, totalExponent]
  have hpos : 0 < m * m' := Nat.mul_pos h.pos h'.pos
  have hge := h.ge
  have hge' := h'.ge
  rcases h.full with hfull | hleast
  · have hlog := (Nat.le_log2 hpos.ne').mpr (hfull.trans (Nat.le_mul_of_pos_right m h'.pos))
    omega
  · rcases h'.full with hfull | hleast'
    · have hlog := (Nat.le_log2 hpos.ne').mpr (hfull.trans (Nat.le_mul_of_pos_left m' h.pos))
      omega
    · omega

/-- The product of models stands for the product, if this is a double. -/
theorem StandsFor.mul (hu : StandsFor u p) (hv : StandsFor v q) (h : IsDouble (p * q)) :
    StandsFor (UnpackedFloat.mul Format.binary64 u v) (p * q) := by
  cases hu with
  | zero s =>
    rw [zero_mul]
    cases hv <;> exact .zero _
  | @finite s m e hm =>
    cases hv with
    | zero s' =>
      rw [mul_zero]
      exact .zero _
    | @finite s' m' e' hm' =>
      have hvalue : unit s * (m * 2 ^ e) * (unit s' * (m' * 2 ^ e')) =
          unit (s * s') * ((m * m' : ℕ) * 2 ^ (e + e')) := by
        rw [unit_mul, zpow_add₀ (by norm_num)]
        push_cast
        ring
      rw [hvalue, isDouble_unit_mul] at h
      rw [hvalue]
      have hpos : 0 < m * m' := Nat.mul_pos hm.pos hm'.pos
      refine standsFor_rounded (by positivity) h _ ?_ (hm.mul_bits hm')
      exact mul_div_cancel_right₀ _ (by positivity)

/-- The quotient of models stands for the quotient, if this is a double. -/
theorem StandsFor.div (hu : StandsFor u p) (hv : StandsFor v q) (hq : q ≠ 0)
    (h : IsDouble (p / q)) : StandsFor (UnpackedFloat.div Format.binary64 u v) (p / q) := by
  cases hv with
  | zero s' => exact absurd rfl hq
  | @finite s' m' e' hm' =>
    cases hu with
    | zero s =>
      rw [zero_div]
      exact .zero _
    | @finite s m e hm =>
      have hvalue : unit s * (m * 2 ^ e) / (unit s' * (m' * 2 ^ e')) =
          unit (s / s') * (m * 2 ^ e / (m' * 2 ^ e')) := by
        rw [unit_div]
        field_simp
      rw [hvalue, isDouble_unit_mul] at h
      rw [hvalue]
      obtain ⟨n, target, acc, hcore, happrox, hbits⟩ := divCore_spec e e' hm.pos hm'.pos rfl
      simp only [UnpackedFloat.div, hcore]
      exact standsFor_rounded (div_pos hm.two_zpow_pos hm'.two_zpow_pos) h _ happrox hbits

theorem Holds.add (hx : Holds x p) (hy : Holds y q) (h : IsDouble (p + q)) :
    Holds (x + y) (p + q) :=
  ⟨_, hx.standsFor.add hy.standsFor h, rfl⟩

theorem Holds.sub (hx : Holds x p) (hy : Holds y q) (h : IsDouble (p - q)) :
    Holds (x - y) (p - q) :=
  ⟨_, hx.standsFor.sub hy.standsFor h, rfl⟩

theorem Holds.mul (hx : Holds x p) (hy : Holds y q) (h : IsDouble (p * q)) :
    Holds (x * y) (p * q) :=
  ⟨_, hx.standsFor.mul hy.standsFor h, rfl⟩

theorem Holds.div (hx : Holds x p) (hy : Holds y q) (hq : q ≠ 0) (h : IsDouble (p / q)) :
    Holds (x / y) (p / q) :=
  ⟨_, hx.standsFor.div hy.standsFor hq h, rfl⟩

theorem isDouble_zero : IsDouble 0 := .inl rfl

/-- What a double holds is a number that it can hold. -/
theorem Holds.isDouble (h : Holds x q) : IsDouble q := by
  obtain ⟨u, hu, -⟩ := h
  cases hu with
  | zero s => exact isDouble_zero
  | @finite s m e h => exact isDouble_unit_mul.mpr (.inr ⟨m, e, h, abs_of_pos h.two_zpow_pos⟩)

/-- A multiple of a power of two is held if the factor fits a mantissa. -/
theorem isDouble_mul_two_zpow {M : ℤ} (hM : M.natAbs < 2 ^ 53) (hge : -1074 ≤ e) (hle : e ≤ 971) :
    IsDouble (M * 2 ^ e) := by
  rcases eq_or_ne M 0 with rfl | hne
  · rw [Int.cast_zero, zero_mul]
    exact isDouble_zero
  · have habs : |(M : ℚ) * 2 ^ e| = M.natAbs * 2 ^ e := by
      rw [abs_mul, abs_of_pos (by positivity : (0 : ℚ) < 2 ^ e), Nat.cast_natAbs, Int.cast_abs]
    generalize hn : M.natAbs = n at hM habs
    have hn0 : n ≠ 0 := by omega
    have hlog : n.log2 < 53 := (Nat.log2_lt hn0).mpr hM
    -- The factor is shifted until it has all its bits or the exponent is the least.
    obtain ⟨k, hk⟩ : ∃ k, k = min (52 - n.log2) (e + 1074).toNat := ⟨_, rfl⟩
    have hshift : (n <<< k).log2 = n.log2 + k := log2_shiftLeft hn0 k
    have hne : n <<< k ≠ 0 := by
      rw [Nat.shiftLeft_eq]
      positivity
    refine .inr ⟨n <<< k, e - k, ⟨Nat.pos_of_ne_zero hne, ?_, by omega, by omega, ?_⟩, ?_⟩
    · exact (Nat.log2_lt hne).mp (by omega)
    · rcases le_total (52 - n.log2) (e + 1074).toNat with hbits | hleast
      · exact .inl ((Nat.le_log2 hne).mp (by omega))
      · exact .inr (by omega)
    · rw [habs, zpow_sub₀ (by norm_num), zpow_natCast, Nat.shiftLeft_eq]
      push_cast
      field_simp

/-- A model of zero is one of the two zeros. -/
theorem StandsFor.exists_zero (h : StandsFor u 0) : ∃ s, u = .zero s := by
  generalize hq : (0 : ℚ) = q at h
  cases h with
  | zero s => exact ⟨s, rfl⟩
  | finite s h =>
    have := h.two_zpow_pos
    cases s <;> simp only [unit] at hq <;> linarith

theorem holds_zero_of_unpack {s : Sign} (h : x.toModel.unpack = .zero s) : Holds x 0 := by
  have hfinite : x.toModel.unpack.isFinite = true := by
    rw [h]
    rfl
  obtain ⟨q, hq⟩ := exists_holds hfinite
  have hzero := hq.standsFor
  rw [h] at hzero
  cases hzero
  exact hq

/-- The root of zero is zero. -/
theorem Holds.sqrt_zero (hx : Holds x 0) : Holds x.sqrt 0 := by
  obtain ⟨s, hs⟩ := hx.standsFor.exists_zero
  refine ⟨.zero s, .zero s, ?_⟩
  change Float.ofModel (.pack (UnpackedFloat.sqrt Format.binary64 x.toModel.unpack)) = _
  rw [hs]
  rfl

/-- What is packed to something finite is finite. -/
theorem isFinite_of_packed (h : (Float.Model.pack u).unpack.isFinite = true) :
    u.isFinite = true := by
  cases u with
  | notANumber => exact absurd h (by decide)
  | infinity s => cases s <;> exact absurd h (by decide)
  | zero s => rfl
  | finite s m e hm => rfl

/-- What divides something to a finite quotient divides zero to zero. -/
theorem exists_zero_div (s : Sign) (h : (UnpackedFloat.div Format.binary64 u v).isFinite = true) :
    ∃ s', UnpackedFloat.div Format.binary64 (.zero s) v = .zero s' := by
  cases v with
  | infinity s' => exact ⟨_, rfl⟩
  | finite s' m e hm => exact ⟨_, rfl⟩
  | notANumber => cases u <;> exact absurd h Bool.false_ne_true
  | zero s' => cases u <;> exact absurd h Bool.false_ne_true

/-- Zero by what gives a finite quotient is zero. -/
theorem Holds.zero_div (hz : Holds z 0) (hquotient : (x / y).isFinite = true) :
    Holds (z / y) 0 := by
  obtain ⟨s, hs⟩ := hz.standsFor.exists_zero
  obtain ⟨s', hs'⟩ := exists_zero_div s (isFinite_of_packed hquotient)
  refine ⟨.zero s', .zero s', ?_⟩
  change Float.ofModel (.pack (UnpackedFloat.div Format.binary64 z.toModel.unpack _)) = _
  rw [hs, hs']

/-- Only from something finite is a distance finite. -/
theorem isFinite_of_sub (h : (UnpackedFloat.sub Format.binary64 u v).isFinite = true) :
    v.isFinite = true := by
  cases v with
  | notANumber => cases u <;> exact absurd h Bool.false_ne_true
  | infinity s =>
    cases u with
    | infinity s' => cases s <;> cases s' <;> exact absurd h Bool.false_ne_true
    | notANumber | zero | finite => exact absurd h Bool.false_ne_true
  | zero s => rfl
  | finite s m e hm => rfl

/-- Only of something finite is a square finite. -/
theorem isFinite_of_mul_self (h : (UnpackedFloat.mul Format.binary64 u u).isFinite = true) :
    u.isFinite = true := by
  cases u with
  | notANumber | infinity => exact absurd h Bool.false_ne_true
  | zero s => rfl
  | finite s m e hm => rfl

/-- What a zero leaves of its distance from something depends on its sign only if that is zero. -/
theorem zero_sub_eq_or (s s' : Sign) (v : UnpackedFloat) :
    UnpackedFloat.sub Format.binary64 (.zero s) v = UnpackedFloat.sub Format.binary64 (.zero s') v ∨
      ∃ s'', v = .zero s'' := by
  cases v with
  | notANumber => exact .inl rfl
  | infinity => exact .inl rfl
  | zero s'' => exact .inr ⟨s'', rfl⟩
  | finite => exact .inl rfl

/-- Only one mantissa and exponent of a double stand for a number. -/
theorem IsCanonical.unique {m' : ℕ} {e' : ℤ} (h : IsCanonical m e) (h' : IsCanonical m' e')
    (heq : (m : ℚ) * 2 ^ e = m' * 2 ^ e') : m = m' ∧ e = e' := by
  have happrox : Approximates (.ofMantissaAndAccuracy m .exact) (m * 2 ^ e / 2 ^ e) :=
    mul_div_cancel_right₀ _ (by positivity)
  have hself := roundWithAccuracy_eq h happrox h.le_targetExponent (.self m e) .positive
  have hother := roundWithAccuracy_eq h' happrox h.le_targetExponent (heq ▸ .self m' e') .positive
  simpa using hself.symm.trans hother

/-- A number other than zero is held by one double only. -/
theorem StandsFor.unique (hu : StandsFor u q) (hv : StandsFor v q) (hq : q ≠ 0) : u = v := by
  cases hu with
  | zero s => exact absurd rfl hq
  | @finite s m e h =>
    generalize hp : unit s * (m * 2 ^ e) = p at hv hq
    have hpos := h.two_zpow_pos
    cases hv with
    | zero s' => exact absurd rfl hq
    | @finite s' m' e' h' =>
      have hpos' := h'.two_zpow_pos
      have hsign : s = s' := by
        cases s <;> cases s' <;> first | rfl | (simp only [unit] at hp; linarith)
      subst hsign
      have hvalue : (m : ℚ) * 2 ^ e = m' * 2 ^ e' := by
        cases s <;> simpa only [unit, one_mul, neg_one_mul, neg_inj] using hp
      obtain ⟨rfl, rfl⟩ := h.unique h' hvalue
      rfl

/-- Only one double holds a fraction other than zero. -/
theorem Holds.unique (hx : Holds x q) (hy : Holds y q) (hq : q ≠ 0) : x = y := by
  obtain ⟨u, hu, rfl⟩ := hx
  obtain ⟨v, hv, rfl⟩ := hy
  rw [hu.unique hv hq]

/-- Doubles that hold one number have the same distance from another, unless they have none. -/
theorem Holds.sub_eq_or (hx : Holds x q) (hy : Holds y q) (z : Float) :
    x - z = y - z ∨ Holds (x - z) 0 ∧ Holds (y - z) 0 := by
  rcases eq_or_ne q 0 with rfl | hq
  · obtain ⟨s, hs⟩ := hx.standsFor.exists_zero
    obtain ⟨s', hs'⟩ := hy.standsFor.exists_zero
    rcases zero_sub_eq_or s s' z.toModel.unpack with heq | ⟨s'', hz⟩
    · rw [← hs, ← hs'] at heq
      exact .inl (congrArg (fun u => Float.ofModel (.pack u)) heq)
    · have hdouble : IsDouble (0 - 0) := by
        rw [sub_self]
        exact isDouble_zero
      have hdistance := hx.sub (holds_zero_of_unpack hz) hdouble
      have hdistance' := hy.sub (holds_zero_of_unpack hz) hdouble
      rw [sub_self] at hdistance hdistance'
      exact .inr ⟨hdistance, hdistance'⟩
  · exact .inl (congrArg (· - z) (hx.unique hy hq))

/-- Models are equal just when the fractions are. -/
theorem StandsFor.beq_iff (hu : StandsFor u p) (hv : StandsFor v q) :
    u.beq v = true ↔ p = q := by
  cases hu with
  | zero s =>
    cases hv with
    | zero s' => exact iff_of_true rfl rfl
    | @finite s' m e h =>
      have hpos := h.two_zpow_pos
      refine iff_of_false (by cases s' <;> exact Bool.false_ne_true) ?_
      cases s' <;> simp only [unit] <;> linarith
  | @finite s m e h =>
    have hpos := h.two_zpow_pos
    cases hv with
    | zero s' =>
      refine iff_of_false (by cases s <;> exact Bool.false_ne_true) ?_
      cases s <;> simp only [unit] <;> linarith
    | @finite s' m' e' h' =>
      have hpos' := h'.two_zpow_pos
      have hvalue : (m : ℚ) * 2 ^ e = m' * 2 ^ e' ↔ e = e' ∧ m = m' :=
        ⟨fun heq => (h.unique h' heq).symm, fun ⟨he, hm⟩ => by rw [he, hm]⟩
      cases s <;> cases s' <;>
        simp only [UnpackedFloat.beq, UnpackedFloat.compare, unit, one_mul, neg_one_mul, neg_inj]
      case negative.negative => simp [hvalue, Ordering.then_eq_eq]
      case positive.positive => simp [hvalue, Ordering.then_eq_eq]
      case negative.positive => exact iff_of_false (by decide) (by linarith)
      case positive.negative => exact iff_of_false (by decide) (by linarith)

/-- Doubles are equal just when they hold the same number. -/
theorem Holds.beq_iff (hx : Holds x p) (hy : Holds y q) : (x == y) = true ↔ p = q :=
  hx.standsFor.beq_iff hy.standsFor

/-- What is equal to a finite double holds the same number. -/
theorem Holds.of_beq (hx : Holds x p) (h : (y == x) = true) : Holds y p := by
  have hfinite : ∀ u v : UnpackedFloat, StandsFor v p → u.beq v = true → u.isFinite = true := by
    intro u v hv huv
    cases u with
    | notANumber => cases hv <;> cases huv
    | infinity s => cases s <;> cases hv <;> cases huv
    | zero s => rfl
    | finite s m e hm => rfl
  obtain ⟨q, hy⟩ := exists_holds (hfinite _ _ hx.standsFor h)
  rwa [← (hy.beq_iff hx).mp h]

/-- A whole number that fits a mantissa is held exactly. -/
theorem holds_ofNat {n : ℕ} (h : n < 2 ^ 53) : Holds n.toFloat n := by
  rcases Nat.eq_zero_or_pos n with rfl | hpos
  · rw [Nat.cast_zero]
    exact ⟨_, .zero _, eq_zero_of_ofFloat (by decide : Exact.ofFloat (Nat.toFloat 0) =
      .finite false 0 (-1074))⟩
  · obtain ⟨m₁, e₁, h₁, hwhole, hvalue⟩ := exists_toFloat_eq hpos h
    obtain ⟨m₂, e₂, h₂, hone, hvalue'⟩ := exists_powerOfTen_eq (k := 0)
      (x := Float.exactlyRepresentablePowersOfTen[0]) (by decide +kernel)
    have hwhole' : Holds n.toUInt64.toFloat n := by
      rw [hwhole, ← hvalue, ← one_mul ((m₁ : ℚ) * 2 ^ e₁)]
      exact ⟨_, .finite .positive h₁, rfl⟩
    have hone' : Holds Float.exactlyRepresentablePowersOfTen[0] 1 := by
      rw [hone, ← pow_zero 10, ← hvalue', ← one_mul ((m₂ : ℚ) * 2 ^ e₂)]
      exact ⟨_, .finite .positive h₂, rfl⟩
    have hproduct := hwhole'.mul hone' (by rw [mul_one]; exact hwhole'.isDouble)
    rw [mul_one] at hproduct
    change Holds (Float.ofScientific n false 0) n
    rw [Float.ofScientific, dif_pos ⟨h, by decide⟩]
    exact hproduct

theorem holds_zero : Holds Arith.zero 0 := Nat.cast_zero (R := ℚ) ▸ holds_ofNat (by norm_num)

theorem Holds.isZero_iff (hx : Holds x p) : Arith.isZero x = true ↔ p = 0 := hx.beq_iff holds_zero

end IndicatorFormula.Decimal
