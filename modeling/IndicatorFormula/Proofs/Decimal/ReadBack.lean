import IndicatorFormula.Decimal.Numeral
import IndicatorFormula.Proofs.Decimal.Scientific
import IndicatorFormula.Proofs.Decimal.Shortest

/-!
# Shortest decimals read back

The positional notation of a grid point is a numeral with exactly the value of the point.
With the point rounded to the double, so is the numeral, and reading it gives the double.
-/

namespace IndicatorFormula.Decimal

open Text

theorem digitsValue_append_singleton (cs : List Char) (c : Char) :
    Numeral.digitsValue (cs ++ [c]) = 10 * Numeral.digitsValue cs + digitValue c := by
  simp [Numeral.digitsValue]

/-- Digits behind others count their value and shift the others. -/
theorem digitsValue_append (cs ds : List Char) :
    Numeral.digitsValue (cs ++ ds) =
      Numeral.digitsValue cs * 10 ^ ds.length + Numeral.digitsValue ds := by
  induction ds using List.reverseRecOn with
  | nil => simp [Numeral.digitsValue]
  | append_singleton ds d ih =>
    rw [← List.append_assoc, digitsValue_append_singleton, ih, digitsValue_append_singleton,
      List.length_append, List.length_singleton, pow_succ]
    ring

/-- Zeros have no value. -/
theorem digitsValue_replicate_zero (n : ℕ) :
    Numeral.digitsValue (List.replicate n '0') = 0 := by
  induction n with
  | zero => rfl
  | succ n ih =>
    rw [List.replicate_succ', digitsValue_append_singleton, ih]
    decide

theorem isDigit_of_mem_replicate {n : ℕ} {c : Char} (h : c ∈ List.replicate n '0') :
    isDigit c = true := by
  rw [List.eq_of_mem_replicate h]
  decide

/-- The digit of a number below ten is a digit with that value. -/
theorem digitChar_spec {n : ℕ} (h : n < 10) :
    isDigit n.digitChar = true ∧ digitValue n.digitChar = n := by
  have htable : ∀ k : Fin 10, isDigit (k : ℕ).digitChar = true ∧
      digitValue (k : ℕ).digitChar = k := by decide
  exact htable ⟨n, h⟩

/-- The decimal digits of a number are digits and have it as their value. -/
theorem decimalDigits_spec (n : ℕ) :
    (∀ c ∈ decimalDigits n, isDigit c = true) ∧ Numeral.digitsValue (decimalDigits n) = n := by
  induction n using Nat.strongRecOn with
  | ind n ih =>
    rw [decimalDigits, Nat.toDigits_eq_if (by norm_num)]
    split
    · rename_i hsmall
      obtain ⟨hdigit, hvalue⟩ := digitChar_spec hsmall
      refine ⟨?_, ?_⟩
      · intro c hc
        rw [List.mem_singleton] at hc
        exact hc ▸ hdigit
      · rw [← List.nil_append [n.digitChar], digitsValue_append_singleton, hvalue]
        exact Nat.zero_add n
    · obtain ⟨hdigits, hvalue⟩ := ih (n / 10) (by omega)
      obtain ⟨hlast, hlastValue⟩ := digitChar_spec (Nat.mod_lt n (by norm_num : 10 > 0))
      rw [decimalDigits] at hdigits hvalue
      refine ⟨?_, ?_⟩
      · intro c hc
        rcases List.mem_append.mp hc with hc | hc
        · exact hdigits c hc
        · rw [List.mem_singleton] at hc
          exact hc ▸ hlast
      · rw [digitsValue_append_singleton, hvalue, hlastValue]
        omega

/-- Only zeros are dropped behind the digits. -/
theorem dropTrailingZeros_append (cs : List Char) :
    ∃ n, cs = dropTrailingZeros cs ++ List.replicate n '0' := by
  refine ⟨(cs.rtakeWhile (· = '0')).length, ?_⟩
  have hzeros : cs.rtakeWhile (· = '0') =
      List.replicate (cs.rtakeWhile (· = '0')).length '0' := by
    refine List.eq_replicate_of_mem fun c hc => ?_
    simpa using List.mem_rtakeWhile_imp hc
  have hsplit := List.rdropWhile_append_rtakeWhile (p := (· = '0')) (l := cs)
  rw [← hzeros]
  exact hsplit.symm

/-- The magnitude of a numeral. -/
def Numeral.magnitude (n : Numeral) : ℚ :=
  digitsValue (n.whole ++ n.fraction) / 10 ^ n.fraction.length

/-- A text behind a sign is a numeral of a given magnitude. -/
def SpellsNumeral (negative : Bool) (cs : List Char) (v : ℚ) : Prop :=
  ∃ n : Numeral, n.negative = negative ∧ n.WellFormed ∧ n.text = signText negative ++ cs ∧
    n.magnitude = v

variable {digits : List Char}

/-- Digits behind a point and zeros are a numeral. -/
theorem spellsNumeral_small (negative : Bool) (zeros : ℕ) (hne : digits ≠ [])
    (hdigits : ∀ c ∈ digits, isDigit c = true) :
    SpellsNumeral negative ('0' :: '.' :: (List.replicate zeros '0' ++ digits))
      (Numeral.digitsValue digits / 10 ^ (zeros + digits.length)) := by
  refine ⟨⟨negative, ['0'], List.replicate zeros '0' ++ digits⟩, rfl, ⟨by simp, ?_, ?_⟩, ?_, ?_⟩
  · intro c hc
    exact isDigit_of_mem_replicate (n := 1) hc
  · intro c hc
    rcases List.mem_append.mp hc with hc | hc
    · exact isDigit_of_mem_replicate hc
    · exact hdigits c hc
  · simp [Numeral.text, signText, hne]
  · have hzero : Numeral.digitsValue ['0'] = 0 := digitsValue_replicate_zero 1
    simp only [Numeral.magnitude, digitsValue_append, digitsValue_replicate_zero, hzero,
      List.length_append, List.length_replicate, Nat.zero_mul, Nat.zero_add]

/-- Digits and zeros are a numeral. -/
theorem spellsNumeral_whole (negative : Bool) (zeros : ℕ) (hne : digits ≠ [])
    (hdigits : ∀ c ∈ digits, isDigit c = true) :
    SpellsNumeral negative (digits ++ List.replicate zeros '0')
      (Numeral.digitsValue digits * 10 ^ zeros) := by
  refine ⟨⟨negative, digits ++ List.replicate zeros '0', []⟩, rfl, ⟨by simp [hne], ?_, by simp⟩,
    ?_, ?_⟩
  · intro c hc
    rcases List.mem_append.mp hc with hc | hc
    · exact hdigits c hc
    · exact isDigit_of_mem_replicate hc
  · simp [Numeral.text, signText]
  · simp [Numeral.magnitude, digitsValue_append, digitsValue_replicate_zero]

/-- Digits with a point among them are a numeral. -/
theorem spellsNumeral_pointed (negative : Bool) {whole : ℕ} (hpos : 0 < whole)
    (hlt : whole < digits.length) (hdigits : ∀ c ∈ digits, isDigit c = true) :
    SpellsNumeral negative (digits.take whole ++ '.' :: digits.drop whole)
      (Numeral.digitsValue digits / 10 ^ (digits.length - whole)) := by
  have hdrop : digits.drop whole ≠ [] := by
    rw [ne_eq, List.drop_eq_nil_iff]
    omega
  refine ⟨⟨negative, digits.take whole, digits.drop whole⟩, rfl, ⟨?_, ?_, ?_⟩, ?_, ?_⟩
  · rw [ne_eq, List.take_eq_nil_iff]
    rintro (hzero | rfl)
    · omega
    · exact Nat.not_lt_zero _ hlt
  · intro c hc
    exact hdigits c (List.mem_of_mem_take hc)
  · intro c hc
    exact hdigits c (List.mem_of_mem_drop hc)
  · simp only [Numeral.text, signText, hdrop, if_false, List.append_assoc]
  · simp only [Numeral.magnitude, List.take_append_drop, List.length_drop]

/-- Digits in positional notation are a numeral whose first digit counts the given power of
ten. -/
theorem spellsNumeral_positional (negative : Bool) (hne : digits ≠ [])
    (hdigits : ∀ c ∈ digits, isDigit c = true) (exponent : ℤ) :
    SpellsNumeral negative (positional digits exponent)
      (Numeral.digitsValue digits * 10 ^ (exponent + 1 - digits.length)) := by
  unfold positional
  by_cases hsmall : exponent < 0
  · obtain ⟨zeros, hzeros⟩ : ∃ zeros : ℕ, -exponent - 1 = zeros :=
      ⟨(-exponent - 1).toNat, by omega⟩
    have hpower : exponent + 1 - digits.length = -((zeros + digits.length : ℕ) : ℤ) := by omega
    rw [if_pos hsmall, hzeros, Int.toNat_natCast, hpower, zpow_neg, zpow_natCast,
      ← div_eq_mul_inv]
    exact spellsNumeral_small negative zeros hne hdigits
  · obtain ⟨whole, hwhole⟩ : ∃ whole : ℕ, exponent.toNat + 1 = whole := ⟨_, rfl⟩
    rw [if_neg hsmall, hwhole]
    by_cases hlong : digits.length ≤ whole
    · have hpower : exponent + 1 - digits.length = ((whole - digits.length : ℕ) : ℤ) := by omega
      rw [if_pos hlong, hpower, zpow_natCast]
      exact spellsNumeral_whole negative _ hne hdigits
    · have hpower : exponent + 1 - digits.length = -((digits.length - whole : ℕ) : ℤ) := by omega
      rw [if_neg hlong, hpower, zpow_neg, zpow_natCast, ← div_eq_mul_inv]
      exact spellsNumeral_pointed negative (by omega) (by omega) hdigits

/-- The text of a grid point is a numeral with the value of the point. -/
theorem spellsNumeral_text (negative : Bool) {p : GridPoint} (hpos : 0 < p.count) :
    SpellsNumeral negative p.text p.value := by
  obtain ⟨hdigits, hvalue⟩ := decimalDigits_spec p.count
  obtain ⟨zeros, hzeros⟩ := dropTrailingZeros_append (decimalDigits p.count)
  have htext : p.text = positional (dropTrailingZeros (decimalDigits p.count))
      (p.step + (decimalDigits p.count).length - 1) := rfl
  rw [htext]
  generalize dropTrailingZeros (decimalDigits p.count) = digits at hzeros ⊢
  rw [hzeros, digitsValue_append, digitsValue_replicate_zero, List.length_replicate,
    Nat.add_zero] at hvalue
  have hne : digits ≠ [] := by
    rintro rfl
    have hzero : Numeral.digitsValue [] = 0 := rfl
    rw [hzero, Nat.zero_mul] at hvalue
    omega
  have hlength : (decimalDigits p.count).length = digits.length + zeros := by
    rw [hzeros, List.length_append, List.length_replicate]
  have hpower : p.step + (decimalDigits p.count).length - 1 + 1 - digits.length =
      zeros + p.step := by omega
  have hpoint : p.value = Numeral.digitsValue digits *
      10 ^ (p.step + (decimalDigits p.count).length - 1 + 1 - digits.length) := by
    rw [hpower, zpow_add₀ (by norm_num), zpow_natCast, GridPoint.value, ← hvalue]
    push_cast
    ring
  rw [hpoint]
  refine spellsNumeral_positional negative hne ?_ _
  intro c hc
  exact hdigits c (hzeros ▸ List.mem_append_left _ hc)

/-- A numeral that is rounded to a double is read as that double with its sign. -/
theorem Numeral.value_eq {n : Numeral} {m : ℕ} {e : ℤ} (hcanonical : IsCanonical m e)
    (hv : RoundsTo n.magnitude m e) :
    n.value = .ofModel (.pack (.finite (signOf n.negative) m e hcanonical.pos)) := by
  have hread := ofScientific_eq hcanonical hv
  rw [Numeral.value, hread]
  cases n.negative with
  | false => rfl
  | true =>
    show Float.ofModel (.pack (Float.Model.UnpackedFloat.neg (Float.Model.pack _).unpack)) = _
    rw [unpack_pack hcanonical]
    rfl

/-- A zero is read as a zero of its sign. -/
theorem value_zero (negative : Bool) :
    Numeral.value ⟨negative, ['0'], []⟩ = .ofModel (.pack (.zero (signOf negative))) := by
  cases negative <;> decide +kernel

/-- The shortest decimal of a finite double is a numeral that is read as the double. -/
theorem exists_numeral_shortest {x : Float} (hx : x.isFinite = true) :
    ∃ n : Numeral, n.WellFormed ∧ (shortest x).toList = n.text ∧ n.value = x := by
  obtain ⟨negative, m, e, hexact⟩ := ofFloat_of_isFinite hx
  rcases Nat.eq_zero_or_pos m with rfl | hpos
  · refine ⟨⟨negative, ['0'], []⟩, ⟨by simp, ?_, by simp⟩, ?_, ?_⟩
    · intro c hc
      exact isDigit_of_mem_replicate (n := 1) hc
    · simp only [shortest, hexact, if_true, String.toList_ofList]
      simp [Numeral.text, signText]
    · rw [value_zero, eq_zero_of_ofFloat hexact]
  · obtain ⟨hcanonical, rfl⟩ := eq_pack_of_ofFloat hpos hexact
    obtain ⟨p, hp, hround⟩ := exists_shortestPoint?_eq hcanonical
    have hcount : 0 < p.count := by
      refine Nat.pos_of_ne_zero fun hzero => ?_
      have hhalf := hround.half_le
      have hone : (1 : ℚ) ≤ m := by exact_mod_cast hpos
      rw [GridPoint.value, hzero, Nat.cast_zero, zero_mul, zero_div] at hhalf
      linarith
    obtain ⟨n, rfl, hn, htext, hmagnitude⟩ := spellsNumeral_text negative hcount
    refine ⟨n, hn, ?_, n.value_eq hcanonical (hmagnitude ▸ hround)⟩
    simp only [shortest, hexact, hpos.ne', if_false, hp, String.toList_ofList, htext]

end IndicatorFormula.Decimal
