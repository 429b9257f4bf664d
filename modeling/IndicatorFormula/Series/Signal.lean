import IndicatorFormula.Series.Basic

/-!
# Signals

A signal tells for each point of a series whether its value meets a condition: one if it
does and zero if not.
-/

namespace IndicatorFormula

/-- A comparison of two numbers. -/
inductive Comparison where
  /-- Greater than. -/
  | greater
  /-- Less than. -/
  | less
  /-- At least as great. -/
  | atLeast
  /-- At most as great. -/
  | atMost
  /-- Equal. -/
  | equal
  deriving DecidableEq, Repr

namespace Comparison

/-- The signs of a comparison. -/
def symbol : Comparison → String
  | greater => ">"
  | less => "<"
  | atLeast => ">="
  | atMost => "<="
  | equal => "=="

variable {α : Type} [Arith α]

/-- Whether two numbers compare so; nothing holds of an undefined one. -/
def holds : Comparison → α → α → Bool
  | greater, x, y => Arith.lt y x
  | less, x, y => Arith.lt x y
  | atLeast, x, y => Arith.lt y x || Arith.eq x y
  | atMost, x, y => Arith.lt x y || Arith.eq x y
  | equal, x, y => Arith.eq x y

/-- One at the points whose value compares so with the threshold, zero at the others. -/
def signal (comparison : Comparison) (threshold : α) (s : Series α) : Series α :=
  s.map fun p => (p.1, if comparison.holds p.2 threshold then Arith.one else Arith.zero)

end Comparison

end IndicatorFormula
