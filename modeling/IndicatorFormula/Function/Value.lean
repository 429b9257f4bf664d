import IndicatorFormula.Series.Basic

/-!
# Values and arguments

A formula stands for a single number or for a series. A function takes either, or a text
that it reads for itself.
-/

namespace IndicatorFormula

/-- What a value can be. -/
inductive Shape where
  /-- A single number. -/
  | scalar
  /-- A series. -/
  | series
  deriving DecidableEq, Repr

/-- What a place for an argument takes. -/
inductive Slot where
  /-- A series. -/
  | series
  /-- A single number. -/
  | scalar
  /-- A text that is not evaluated. -/
  | text
  deriving DecidableEq, Repr

/-- The name of the shape. -/
def Shape.name : Shape → String
  | scalar => "scalar"
  | series => "series"

/-- The name of what the place takes. -/
def Slot.name : Slot → String
  | series => "series"
  | scalar => "scalar"
  | text => "string"

/-- The values of a shape. -/
abbrev Shape.Carrier : Shape → Type
  | scalar => Float
  | series => Series Float

/-- The arguments that fit a place. -/
abbrev Slot.Carrier : Slot → Type
  | series => Series Float
  | scalar => Float
  | text => String

/-- A value. -/
inductive Value where
  /-- A single number. -/
  | scalar (x : Float)
  /-- A series. -/
  | series (s : Series Float)
  deriving Repr

namespace Value

/-- The shape of a value. -/
def shape : Value → Shape
  | scalar _ => .scalar
  | series _ => .series

/-- A value of a known shape. -/
def of : (k : Shape) → k.Carrier → Value
  | .scalar, x => scalar x
  | .series, s => series s

/-- A value made in a shape has that shape. -/
theorem shape_of (k : Shape) (x : k.Carrier) : (of k x).shape = k := by cases k <;> rfl

end Value

/-- An argument and where its formula began. -/
structure Placed (β : Type) where
  /-- The argument. -/
  value : β
  /-- Where its formula began. -/
  position : Nat

/-- A row of arguments for a row of places. -/
abbrev Arguments : List Slot → Type
  | [] => Unit
  | k :: ks => Placed k.Carrier × Arguments ks

end IndicatorFormula
