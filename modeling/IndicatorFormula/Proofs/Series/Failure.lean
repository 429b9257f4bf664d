import IndicatorFormula.Proofs.Except
import IndicatorFormula.Series.Correlation
import IndicatorFormula.Series.Drawdown
import IndicatorFormula.Series.Returns
import IndicatorFormula.Series.SeasonalAdjustment
import IndicatorFormula.Series.WeightedIndex

/-!
# How calculations on series fail

A calculation refuses a series that is too short or whose denominator vanishes. There is one
denominator that can vanish without being refused: the deviation by which the mean excess
return over shortfalls is divided, when all shortfalls are too small to have squares.
-/

namespace IndicatorFormula

open IndicatorFormula.Except

/-- The rules of the calculations foresee the failure. -/
def DataError.IsForeseen (e : DataError) : Prop := e.category ≠ .breakdown

theorem Family.align_failsWith {α : Type} (family : Family α) :
    FailsWith DataError.IsForeseen family.align :=
  failsWith_ite (failsWith_error nofun) failsWith_ok

namespace Series

theorem require_failsWith {α : Type} (minimum : Nat) (s : Series α) :
    FailsWith DataError.IsForeseen (require minimum s) :=
  failsWith_ite (failsWith_error nofun) failsWith_ok

/-- Inferring a season fails in foreseen ways only. -/
theorem infer_failsWith (ds : List Date) : FailsWith DataError.IsForeseen (Season.infer ds) := by
  have hlast (halfDays : Int) : FailsWith DataError.IsForeseen
      (.error (.noCycle halfDays) : Except DataError Season) := failsWith_error nofun
  refine failsWith_ite (failsWith_error nofun) ?_
  exact failsWith_ite failsWith_ok (failsWith_ite failsWith_ok
    (failsWith_ite failsWith_ok (failsWith_ite failsWith_ok (hlast _))))

variable {α : Type} [Arith α]

theorem momentum_failsWith (n : Nat) (s : Series α) :
    FailsWith DataError.IsForeseen (momentum n s) :=
  failsWith_ite (failsWith_error nofun) failsWith_ok

/-- The percentage change fails in foreseen ways only. -/
theorem percentChange_failsWith (n : Nat) (s : Series α) :
    FailsWith DataError.IsForeseen (percentChange n s) := by
  refine failsWith_ite (failsWith_error nofun) ?_
  split
  · exact failsWith_error nofun
  · exact failsWith_ok

theorem stochastic_failsWith (n : Nat) (s : Series α) :
    FailsWith DataError.IsForeseen (stochastic n s) :=
  failsWith_ite (failsWith_error nofun) failsWith_ok

/-- Windows have at least one point. -/
theorem correlateWith_failsWith {n : Nat} (hn : n ≠ 0) (left right : Series α) :
    FailsWith DataError.IsForeseen (correlateWith n left right) := by
  refine (Family.align_failsWith _).bind fun frame _ => ?_
  rw [trailingCorrelation, if_neg hn]
  exact failsWith_ite (failsWith_error nofun) failsWith_ok

theorem fittedSlope_failsWith (s : Series α) : FailsWith DataError.IsForeseen s.fittedSlope :=
  (require_failsWith 2 s).bind fun _ _ => failsWith_ok

theorem explainedShare_failsWith (s : Series α) :
    FailsWith DataError.IsForeseen s.explainedShare :=
  (require_failsWith 2 s).bind fun _ _ => failsWith_ite (failsWith_error nofun) failsWith_ok

theorem deepestFall_failsWith (s : Series α) : FailsWith DataError.IsForeseen s.deepestFall :=
  (require_failsWith 1 s).bind fun _ _ => failsWith_ok

/-- The returns fail in foreseen ways only. -/
theorem returns_failsWith (s : Series α) : FailsWith DataError.IsForeseen s.returns := by
  refine (require_failsWith 2 s).bind fun _ _ => ?_
  split
  · exact failsWith_error nofun
  · exact failsWith_ok

theorem sharpeRatio_failsWith (s : Series α) (rate : α) :
    FailsWith DataError.IsForeseen (s.sharpeRatio rate) :=
  (returns_failsWith s).bind fun _ _ => failsWith_ite (failsWith_error nofun) failsWith_ok

/-- A cycle has at least one period. -/
theorem deseasonalized_failsWith (s : Series α) :
    FailsWith DataError.IsForeseen s.deseasonalized := by
  refine (infer_failsWith _).bind fun season _ => ?_
  have hcycle : season.length ≠ 0 := by cases season <;> decide
  have htrend : FailsWith DataError.IsForeseen (centeredAverage season.length s.values) := by
    rw [centeredAverage, if_neg hcycle]
    exact failsWith_ite failsWith_ok failsWith_ok
  exact failsWith_ite (failsWith_error nofun) (htrend.bind fun _ _ => failsWith_ok)

/-- Some returns fall short of a rate, but by so little that their deviation is zero. -/
def HasVanishingShortfall (s : Series α) (rate : α) : Prop :=
  ∃ rs, s.returns = .ok rs ∧ shortfalls rate rs ≠ [] ∧
    Arith.isZero (rootMeanSquare (shortfalls rate rs)) = true

/-- Besides the failures that are foreseen there is that of a deviation that vanishes. -/
theorem sortinoRatio_failsWith (s : Series α) (rate : α) :
    FailsWith (fun e => e.IsForeseen ∨ e = .vanishingShortfall ∧ s.HasVanishingShortfall rate)
      (s.sortinoRatio rate) := by
  refine ((returns_failsWith s).mono fun e he => .inl he).bind fun rs hrs => ?_
  cases hbelow : shortfalls rate rs with
  | nil => exact failsWith_error (.inl nofun)
  | cons x below =>
    by_cases hzero : Arith.isZero (rootMeanSquare (x :: below)) = true
    · simp only [hzero, if_true]
      exact failsWith_error (.inr ⟨rfl, rs, hrs, by simp [hbelow], by rwa [hbelow]⟩)
    · simp only [hzero]
      exact failsWith_ok

end Series

/-- An index fails as a look-up does or with a failure of its own. -/
theorem Constituent.index_failsWith {α ε : Type} [Arith α] {allowed : ε → Prop}
    {fault : DataError → ε} {find : String → Except ε (Series α)} {terms : List (Constituent α)}
    (hfault : ∀ e, allowed (fault e)) (hfind : ∀ t ∈ terms, FailsWith allowed (find t.slug)) :
    FailsWith allowed (index fault find terms) := by
  unfold index
  split
  · exact failsWith_error (hfault _)
  · refine (failsWith_mapM fun t ht => (hfind t ht).bind fun _ _ => failsWith_ok).bind
      fun family _ => ?_
    refine ((Family.align_failsWith family).mapError fun e _ => hfault e).bind fun frame _ => ?_
    split
    · exact failsWith_error (hfault _)
    · exact failsWith_ok

end IndicatorFormula
