import IndicatorFormula.Proofs.Decimal.Operations

/-!
# Results that do not vanish

A result is rounded to zero only if it lies below the least double, the quantum. So what lies some
quanta above zero still does after it has been rounded, unless it is no finite number any more.
Sums add quanta, and a quotient by their count and a root keep one.
-/

namespace IndicatorFormula.Decimal

open Float.Model Float.Model.UnpackedFloat

section Rounding

variable {k m : ℕ} {e : ℤ} {acc : Accuracy}

/-- So many times the least double other than zero. -/
def quanta (k : ℕ) : ℚ := k * 2 ^ (-1074 : ℤ)

theorem quanta_pos (hk : 0 < k) : 0 < quanta k := by
  rw [quanta]
  positivity

/-- A mantissa that makes quanta is not zero. -/
theorem ne_zero_of_quanta_le (hpos : 0 < k) (h : quanta k ≤ m * 2 ^ e) : m ≠ 0 := by
  rintro rfl
  rw [Nat.cast_zero, zero_mul] at h
  exact (quanta_pos hpos).not_ge h

/-- A positive double is at least one quantum. -/
theorem quanta_one_le (hpos : 0 < m) (he : -1074 ≤ e) : quanta 1 ≤ m * 2 ^ e := by
  have hcast : ((1 : ℕ) : ℚ) ≤ m := by exact_mod_cast hpos
  rw [quanta]
  gcongr
  exact one_le_two

/-- A shift to the right divides the mantissa. -/
theorem mantissa_shiftRight (em : ExtendedMantissa) (n : ℕ) :
    (em >>> n).mantissa = em.mantissa / 2 ^ n := by
  induction n with
  | zero => exact (Nat.div_one _).symm
  | succ n ih =>
    change (em >>> n).shiftRightOne.mantissa = _
    rw [pow_succ, ← Nat.div_div_eq_div_mul, ← ih]
    rfl

/-- Rounding does not lower a mantissa. -/
theorem le_roundedMantissa (em : ExtendedMantissa) : em.mantissa ≤ em.roundedMantissa := by
  unfold ExtendedMantissa.roundedMantissa Accuracy.roundToNearestEven
  split <;> omega

/-- A mantissa and an exponent are those of a double other than zero, or of what lies above all
doubles. -/
structure IsFull (m : ℕ) (e : ℤ) : Prop where
  /-- The mantissa has no more than its bits. -/
  lt : m < 2 ^ 53
  /-- The exponent is not below the least. -/
  ge : -1074 ≤ e
  /-- The mantissa has all its bits unless the exponent is the least. -/
  full : 2 ^ 52 ≤ m ∨ e = -1074

/-- The exponent of a full mantissa is not raised by rounding. -/
theorem le_targetExponent_of_full (hfull : 2 ^ 52 ≤ m ∨ e = -1074) (hm : m ≠ 0) :
    e ≤ Format.binary64.targetExponent (totalExponent m e) := by
  rw [targetExponent_binary64, totalExponent]
  rcases hfull with hfull | hleast
  · have hlog := (Nat.le_log2 hm).mpr hfull
    omega
  · omega

/-- A mantissa with enough bits is shifted to the mantissa of a double, and stays as many quanta
above zero. -/
theorem shiftToTargetExponent_spec (hm : m ≠ 0)
    (hbits : e ≤ Format.binary64.targetExponent (totalExponent m e)) (acc : Accuracy) :
    ∃ em target, shiftToTargetExponent Format.binary64 m e acc = (em, target) ∧
      IsFull em.mantissa target ∧
      ∀ k ≤ 2 ^ 53, quanta k ≤ m * 2 ^ e → quanta k ≤ em.mantissa * 2 ^ target := by
  generalize htarget : Format.binary64.targetExponent (totalExponent m e) = target at hbits
  obtain ⟨n, rfl⟩ : ∃ n : ℕ, target = e + n := ⟨(target - e).toNat, by omega⟩
  refine ⟨ExtendedMantissa.ofMantissaAndAccuracy m acc >>> n, e + n, ?_, ?_⟩
  · have hn : (e + n - e).toNat = n := by omega
    simp only [shiftToTargetExponent, htarget, shiftToExponent, hn]
  · rw [mantissa_shiftRight, mantissa_ofMantissaAndAccuracy]
    rw [targetExponent_binary64, totalExponent] at htarget
    have hlt : m / 2 ^ n < 2 ^ 53 := by
      rw [Nat.div_lt_iff_lt_mul (by positivity), ← pow_add]
      exact (Nat.log2_lt hm).mp (by omega)
    have hfull : 2 ^ 52 ≤ m / 2 ^ n ∨ e + n = -1074 := by
      refine or_iff_not_imp_right.mpr fun hleast => ?_
      rw [Nat.le_div_iff_mul_le (by positivity), ← pow_add]
      exact (Nat.le_log2 hm).mp (by omega)
    refine ⟨⟨hlt, by omega, hfull⟩, fun k hk hquanta => ?_⟩
    -- A mantissa with all its bits above the least exponent lies at least `2 ^ 53` quanta high.
    rcases eq_or_ne (e + n : ℤ) (-1074) with hleast | hleast
    · have hcast : (k * 2 ^ n : ℚ) ≤ m := by
        rw [quanta, show e = -1074 - n by omega, zpow_sub₀ (by norm_num), zpow_natCast,
          ← mul_div_assoc, le_div_iff₀ (by positivity), mul_right_comm] at hquanta
        exact le_of_mul_le_mul_right hquanta (by positivity)
      have hle : k ≤ m / 2 ^ n :=
        (Nat.le_div_iff_mul_le (by positivity)).mpr (by exact_mod_cast hcast)
      rw [quanta, hleast]
      gcongr
    · have hmantissa : ((2 ^ 52 : ℕ) : ℚ) ≤ (m / 2 ^ n : ℕ) := by
        exact_mod_cast hfull.resolve_right hleast
      calc quanta k ≤ (2 ^ 53 : ℕ) * 2 ^ (-1074 : ℤ) := by
            rw [quanta]
            gcongr
        _ = (2 ^ 52 : ℕ) * 2 ^ (-1073 : ℤ) := by
            rw [show (-1073 : ℤ) = -1074 + 1 by rfl, zpow_add_one₀ (by norm_num), ← mul_assoc,
              mul_right_comm]
            norm_num
        _ ≤ (m / 2 ^ n : ℕ) * 2 ^ (e + n : ℤ) := by
          gcongr
          · exact one_le_two
          · omega

/-- A result is rounded to zero, below one quantum, or to what has a mantissa and an exponent, and
then it stays as many quanta above zero. -/
theorem roundWithAccuracy_spec (hm : m ≠ 0)
    (hbits : e ≤ Format.binary64.targetExponent (totalExponent m e)) (s : Sign) (acc : Accuracy) :
    (roundWithAccuracy Format.binary64 s m e acc = .zero s ∧ ¬quanta 1 ≤ m * 2 ^ e) ∨
      ∃ (m' : ℕ) (e' : ℤ) (h : 0 < m'),
        roundWithAccuracy Format.binary64 s m e acc = .finite s m' e' h ∧ IsFull m' e' ∧
        ∀ k ≤ 2 ^ 53, quanta k ≤ m * 2 ^ e → quanta k ≤ m' * 2 ^ e' := by
  obtain ⟨em, target, hem, hfull, hquanta⟩ := shiftToTargetExponent_spec hm hbits acc
  generalize hr : em.roundedMantissa = r
  have hle : em.mantissa ≤ r := hr ▸ le_roundedMantissa em
  have hrfull : 2 ^ 52 ≤ r ∨ target = -1074 := hfull.full.imp_left fun h => h.trans hle
  have hrounded : ∀ k ≤ 2 ^ 53, quanta k ≤ m * 2 ^ e → quanta k ≤ r * 2 ^ target := by
    intro k hk h
    exact (hquanta k hk h).trans (by gcongr)
  rcases eq_or_ne r 0 with rfl | hr0
  · refine .inl ⟨?_, fun h => ne_zero_of_quanta_le Nat.one_pos (hrounded 1 (by norm_num) h) rfl⟩
    have hzero : (shiftToTargetExponent Format.binary64 0 target .exact).1.mantissa = 0 := by
      simp only [shiftToTargetExponent, shiftToExponent, mantissa_shiftRight,
        mantissa_ofMantissaAndAccuracy, Nat.zero_div]
    simp only [roundWithAccuracy, hem, hr, hzero, dite_true]
  · -- The mantissa is shifted once more, in case that rounding has given it another bit.
    obtain ⟨em', e', hem', hfull', hquanta'⟩ := shiftToTargetExponent_spec hr0
      (le_targetExponent_of_full hrfull hr0) .exact
    have hone : quanta 1 ≤ r * 2 ^ target := quanta_one_le (Nat.pos_of_ne_zero hr0) hfull.ge
    have hpos : 0 < em'.mantissa := Nat.pos_of_ne_zero
      (ne_zero_of_quanta_le Nat.one_pos (hquanta' 1 (by norm_num) hone))
    refine .inr ⟨em'.mantissa, e', hpos, ?_, hfull',
      fun k hk h => hquanta' k hk (hrounded k hk h)⟩
    simp only [roundWithAccuracy, hem, hr, hem', hpos.ne', dite_false]

end Rounding

/-- What is unpacked of a double is no number, or lies so many quanta above zero. -/
inductive AtLeast (k : ℕ) : UnpackedFloat → Prop
  /-- No number. -/
  | notANumber : AtLeast k .notANumber
  /-- A number above all doubles. -/
  | infinity : AtLeast k (.infinity .positive)
  /-- Any other number. -/
  | finite {m : ℕ} {e : ℤ} (hpos : 0 < m) (h : IsFull m e) (hk : quanta k ≤ m * 2 ^ e) :
    AtLeast k (.finite .positive m e hpos)

section Results

variable {u v : UnpackedFloat} {j k n m : ℕ} {e : ℤ} {acc : Accuracy} {s : Sign}

/-- A number with too large an exponent is packed as infinity. -/
theorem unpack_pack_of_large (hpos : 0 < m) (he : 971 < e) :
    (Float.Model.pack (.finite s m e hpos)).unpack = .infinity s := by
  have hpack : UnpackedFloat.pack Format.binary64 (.finite s m e hpos) =
      UnpackedFloat.pack Format.binary64 (.infinity s) := by
    have hrange : 2 ^ 11 ≤ (e + (1023 : ℕ) + (52 : ℕ)).toNat + 1 := by omega
    exact if_pos hrange
  show UnpackedFloat.unpack Format.binary64 (UnpackedFloat.pack Format.binary64 _) = _
  rw [hpack]
  cases s <;> rfl

/-- Packing takes what lies above all doubles to infinity, and keeps the rest. -/
theorem AtLeast.packed (h : AtLeast k u) : AtLeast k (Float.Model.pack u).unpack := by
  cases h with
  | notANumber => exact .notANumber
  | infinity => exact .infinity
  | @finite m e hpos h hk =>
    rcases le_or_gt e 971 with hle | hgt
    · rw [Decimal.unpack_pack ⟨hpos, h.lt, h.ge, hle, h.full⟩]
      exact .finite hpos h hk
    · rw [unpack_pack_of_large hpos hgt]
      exact .infinity

/-- What is rounded comes out as zero or above it. -/
theorem zero_or_atLeast_rounded (hm : m ≠ 0)
    (hbits : e ≤ Format.binary64.targetExponent (totalExponent m e)) (acc : Accuracy) :
    roundWithAccuracy Format.binary64 .positive m e acc = .zero .positive ∨
      AtLeast 1 (roundWithAccuracy Format.binary64 .positive m e acc) := by
  rcases roundWithAccuracy_spec hm hbits .positive acc with
    ⟨hzero, -⟩ | ⟨m', e', hpos, heq, hfull, -⟩
  · exact .inl hzero
  · rw [heq]
    exact .inr (.finite hpos hfull (quanta_one_le hpos hfull.ge))

/-- What is rounded from some quanta above zero stays as many above it. -/
theorem atLeast_rounded (hk : quanta k ≤ m * 2 ^ e) (hpos : 0 < k) (hle : k ≤ 2 ^ 53)
    (hbits : e ≤ Format.binary64.targetExponent (totalExponent m e)) (acc : Accuracy) :
    AtLeast k (roundWithAccuracy Format.binary64 .positive m e acc) := by
  rcases roundWithAccuracy_spec (ne_zero_of_quanta_le hpos hk) hbits .positive acc with
    ⟨-, hsmall⟩ | ⟨m', e', hpos', heq, hfull, hquanta⟩
  · refine absurd (le_trans ?_ hk) hsmall
    rw [quanta, quanta]
    gcongr
    exact hpos
  · rw [heq]
    exact .finite hpos' hfull (hquanta k hle hk)

theorem quanta_add (j k : ℕ) : quanta (j + k) = quanta j + quanta k := by
  rw [quanta, quanta, quanta, Nat.cast_add, add_mul]

/-- More quanta are more. -/
theorem quanta_mono (h : j ≤ k) : quanta j ≤ quanta k := by
  rw [quanta, quanta]
  gcongr

theorem add_notANumber_left (v : UnpackedFloat) :
    UnpackedFloat.add Format.binary64 .notANumber v = .notANumber := by
  cases v <;> rfl

/-- Adding to zero keeps the quanta. -/
theorem AtLeast.zero_add (h : AtLeast k u) (s : Sign) :
    AtLeast k (UnpackedFloat.add Format.binary64 (.zero s) u) := by
  cases h with
  | notANumber => exact .notANumber
  | infinity => exact .infinity
  | finite hpos h hk => exact .finite hpos h hk

/-- Adding zero keeps the quanta. -/
theorem AtLeast.add_zero (h : AtLeast k u) (s : Sign) :
    AtLeast k (UnpackedFloat.add Format.binary64 u (.zero s)) := by
  cases h with
  | notANumber => exact .notANumber
  | infinity => exact .infinity
  | finite hpos h hk => exact .finite hpos h hk

/-- A sum has the quanta of both, as long as they are few enough to be counted exactly. -/
theorem AtLeast.add (hu : AtLeast j u) (hv : AtLeast k v) (hpos : 0 < n) (hle : n ≤ 2 ^ 53)
    (hn : n ≤ j + k) : AtLeast n (UnpackedFloat.add Format.binary64 u v) := by
  cases hu with
  | notANumber =>
    rw [add_notANumber_left]
    exact .notANumber
  | infinity =>
    cases hv with
    | notANumber => exact .notANumber
    | infinity => exact .infinity
    | @finite m e h =>
      have hinfinite : UnpackedFloat.add Format.binary64 (.infinity .positive)
          (.finite .positive m e h) = .infinity .positive := rfl
      rw [hinfinite]
      exact .infinity
  | @finite m e h hfull hj =>
    cases hv with
    | notANumber => exact .notANumber
    | infinity => exact .infinity
    | @finite m' e' h' hfull' hk =>
      have hvalue : (m : ℚ) * 2 ^ e + m' * 2 ^ e' = ((decreaseExponent m e (min e e')).1 +
          (decreaseExponent m' e' (min e e')).1 : ℕ) * 2 ^ min e e' := by
        push_cast
        rw [add_mul, cast_decreaseExponent (min_le_left e e'),
          cast_decreaseExponent (min_le_right e e')]
      have hquanta := (quanta_mono hn).trans ((quanta_add j k).trans_le (add_le_add hj hk))
      rw [hvalue] at hquanta
      generalize htotal : (decreaseExponent m e (min e e')).1 +
        (decreaseExponent m' e' (min e e')).1 = total at hquanta
      have hne : total ≠ 0 := ne_zero_of_quanta_le hpos hquanta
      have hadd : UnpackedFloat.add Format.binary64 (.finite .positive m e h)
          (.finite .positive m' e' h') =
            UnpackedFloat.round Format.binary64 .positive total (min e e') := by
        rw [← htotal]
        have hcompare : compare (((decreaseExponent m e (min e e')).1 : ℤ) +
            (decreaseExponent m' e' (min e e')).1) 0 = .gt := compare_gt_iff_gt.mpr (by omega)
        simp only [UnpackedFloat.add, UnpackedFloat.normalize, Sign.apply, hcompare]
        congr
      obtain ⟨q, f, hq, hcast, hbits, hround⟩ := exists_round_eq (e := min e e') hne .positive
      rw [hadd, hround]
      exact atLeast_rounded (hcast ▸ hquanta) hpos hle hbits .exact

/-- A square comes out as zero or above it. -/
theorem zero_or_atLeast_mul_self (hu : u.isFinite = true → ∃ q, StandsFor u q) :
    (∃ s, UnpackedFloat.mul Format.binary64 u u = .zero s) ∨
      AtLeast 1 (UnpackedFloat.mul Format.binary64 u u) := by
  cases u with
  | notANumber => exact .inr .notANumber
  | infinity s => cases s <;> exact .inr .infinity
  | zero s => exact .inl ⟨_, rfl⟩
  | finite s m e h =>
    obtain ⟨q, hq⟩ := hu rfl
    cases hq with | finite _ hcanonical =>
    have hsign : s * s = .positive := by cases s <;> rfl
    rw [UnpackedFloat.mul, hsign]
    exact (zero_or_atLeast_rounded (Nat.mul_pos h h).ne' (hcanonical.mul_bits hcanonical)
      .exact).imp_left fun hzero => ⟨_, hzero⟩

/-- What approximates at least one quantum is at least one. -/
theorem quanta_one_le_of_approximates {t : ℚ} (ht : quanta 1 ≤ t)
    (happrox : Approximates (.ofMantissaAndAccuracy m acc) (t / 2 ^ e))
    (hbits : e ≤ Format.binary64.targetExponent (totalExponent m e)) : quanta 1 ≤ m * 2 ^ e := by
  rcases le_or_gt e (-1074) with hle | hgt
  · -- The quantum is a whole number of the mantissa's units, of which only a part is cut off.
    obtain ⟨n, rfl⟩ : ∃ n : ℕ, e = -1074 - n := ⟨(-1074 - e).toNat, by omega⟩
    have hlt := happrox.lt
    rw [mantissa_ofMantissaAndAccuracy, div_lt_iff₀ (by positivity)] at hlt
    have hquantum : quanta 1 = (2 ^ n : ℕ) * 2 ^ (-1074 - n : ℤ) := by
      rw [quanta, Nat.cast_one, one_mul, Nat.cast_pow, Nat.cast_two, ← zpow_natCast,
        ← zpow_add₀ (by norm_num)]
      congr 1
      omega
    rw [hquantum] at ht ⊢
    have hcast : ((2 ^ n : ℕ) : ℚ) < m + 1 :=
      lt_of_mul_lt_mul_right (ht.trans_lt hlt) (by positivity)
    have hnat : 2 ^ n ≤ m := Nat.le_of_lt_succ (by exact_mod_cast hcast)
    gcongr
  · rw [targetExponent_binary64, totalExponent] at hbits
    refine quanta_one_le (Nat.pos_of_ne_zero ?_) hgt.le
    rintro rfl
    rw [Nat.log2_zero] at hbits
    omega

/-- What is divided by the number of its quanta lies one above zero. -/
theorem AtLeast.div (hu : AtLeast k u) (hv : StandsFor v k) (hpos : 0 < k) :
    AtLeast 1 (UnpackedFloat.div Format.binary64 u v) := by
  have hk : (0 : ℚ) < k := by exact_mod_cast hpos
  generalize hq : (k : ℚ) = q at hv hk
  cases hv with
  | zero s => exact absurd hk (lt_irrefl 0)
  | @finite s m' e' h' =>
    have hsign : s = .positive := by
      have hvalue := h'.two_zpow_pos
      cases s with
      | positive => rfl
      | negative =>
        rw [unit] at hk
        linarith
    subst hsign
    rw [unit, one_mul] at hk hq
    cases hu with
    | notANumber => exact .notANumber
    | infinity =>
      have hinfinite : UnpackedFloat.div Format.binary64 (.infinity .positive)
          (.finite .positive m' e' h'.pos) = .infinity .positive := rfl
      rw [hinfinite]
      exact .infinity
    | @finite m e hm hfull hquanta =>
      obtain ⟨n, target, acc, hcore, happrox, hbits⟩ := divCore_spec e e' hm h'.pos rfl
      have hone : quanta 1 ≤ m * 2 ^ e / (m' * 2 ^ e') := by
        rw [le_div_iff₀ hk, ← hq]
        rwa [quanta, Nat.cast_one, one_mul, mul_comm, ← quanta]
      simp only [UnpackedFloat.div, hcore]
      exact atLeast_rounded (quanta_one_le_of_approximates hone happrox hbits) Nat.one_pos
        (by norm_num) hbits acc

/-- The root of some quanta is at least one. -/
theorem AtLeast.sqrt (h : AtLeast k u) : AtLeast 1 (UnpackedFloat.sqrt Format.binary64 u) := by
  cases h with
  | notANumber => exact .notANumber
  | infinity => exact .infinity
  | @finite m e hpos h =>
    simp only [UnpackedFloat.sqrt, sqrtCore]
    generalize htarget : min (e.ediv 2)
      (Format.binary64.targetExponent ((totalExponent m e + 1).ediv 2)) = target
    generalize hshift : (e - 2 * target).toNat = shift
    change min (e / 2) (Format.binary64.targetExponent ((totalExponent m e + 1) / 2)) = target
      at htarget
    rw [targetExponent_binary64, totalExponent] at htarget
    have hge := h.ge
    have hne : m <<< shift ≠ 0 := by
      rw [Nat.shiftLeft_eq]
      positivity
    have hlog : (m <<< shift).log2 = m.log2 + shift := log2_shiftLeft hpos.ne' shift
    have hroot : 2 ^ 52 ≤ (m <<< shift).sqrt := by
      rw [Nat.le_sqrt, ← pow_add]
      exact (Nat.le_log2 hne).mp (by omega)
    have hbits : target ≤
        Format.binary64.targetExponent (totalExponent (m <<< shift).sqrt target) := by
      have hlogroot := (Nat.le_log2 (by omega : (m <<< shift).sqrt ≠ 0)).mpr hroot
      rw [targetExponent_binary64, totalExponent]
      omega
    exact atLeast_rounded (quanta_one_le (by omega) (by omega)) Nat.one_pos (by norm_num) hbits _

theorem AtLeast.beq_zero (h : AtLeast k u) (s : Sign) : u.beq (.zero s) = false := by
  cases h <;> rfl

end Results

/-- A double is no number, or lies so many quanta above zero. -/
def Reaches (x : Float) (k : ℕ) : Prop := AtLeast k x.toModel.unpack

section Doubles

variable {x y : Float} {j k n : ℕ}

theorem Reaches.add (hx : Reaches x j) (hy : Reaches y k) (hpos : 0 < n) (hle : n ≤ 2 ^ 53)
    (hn : n ≤ j + k) : Reaches (x + y) n :=
  (AtLeast.add hx hy hpos hle hn).packed

/-- Adding to zero reaches the same quanta. -/
theorem Reaches.zero_add (hx : Holds x 0) (hy : Reaches y k) : Reaches (x + y) k := by
  obtain ⟨s, hs⟩ := hx.standsFor.exists_zero
  have hsum := (AtLeast.zero_add hy s).packed
  rwa [← hs] at hsum

/-- Adding zero reaches the same quanta. -/
theorem Reaches.add_zero (hx : Reaches x k) (hy : Holds y 0) : Reaches (x + y) k := by
  obtain ⟨s, hs⟩ := hy.standsFor.exists_zero
  have hsum := (AtLeast.add_zero hx s).packed
  rwa [← hs] at hsum

/-- A square holds zero or lies above it. -/
theorem holds_zero_or_reaches_mul_self (x : Float) : Holds (x * x) 0 ∨ Reaches (x * x) 1 := by
  have hfinite : x.toModel.unpack.isFinite = true → ∃ q, StandsFor x.toModel.unpack q := by
    intro h
    obtain ⟨q, hq⟩ := exists_holds h
    exact ⟨q, hq.standsFor⟩
  rcases zero_or_atLeast_mul_self hfinite with ⟨s, hs⟩ | habove
  · exact .inl ⟨.zero s, .zero s, congrArg (fun u => Float.ofModel (.pack u)) hs⟩
  · exact .inr habove.packed

theorem Reaches.div (hx : Reaches x k) (hy : Holds y k) (hpos : 0 < k) : Reaches (x / y) 1 :=
  (AtLeast.div hx hy.standsFor hpos).packed

theorem Reaches.sqrt (hx : Reaches x k) : Reaches x.sqrt 1 := (AtLeast.sqrt hx).packed

/-- A double that reaches quanta is not zero. -/
theorem Reaches.isZero_eq_false (hx : Reaches x k) : Arith.isZero x = false := by
  obtain ⟨s, hs⟩ := holds_zero.standsFor.exists_zero
  have hbeq := AtLeast.beq_zero hx s
  rwa [← hs] at hbeq

end Doubles

end IndicatorFormula.Decimal
