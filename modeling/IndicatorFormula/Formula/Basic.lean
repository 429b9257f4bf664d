/-!
# Formulas

A formula is a tree of calls over numbers, quoted text and indicators. Each part knows
where in the written formula it began; the place plays no role in what the formula means.
A hole stands where a part has not been filled in yet.
-/

namespace IndicatorFormula

/-- A formula. -/
inductive Formula where
  /-- A number. -/
  | number (value : Float) (position : Nat)
  /-- A quoted text. -/
  | literal (content : String) (position : Nat)
  /-- The series of an indicator. -/
  | indicator (slug : String) (position : Nat)
  /-- A function called with arguments. -/
  | call (name : String) (args : List Formula) (position : Nat)
  /-- A place that is still open. -/
  | hole
  deriving Inhabited, Repr

namespace Formula

/-- Where the formula began in the written text; a hole is not written anywhere. -/
def position? : Formula → Option Nat
  | number _ p => some p
  | literal _ p => some p
  | indicator _ p => some p
  | call _ _ p => some p
  | hole => none

mutual

/-- Whether two formulas are the same but for the places of their parts. -/
def alike : Formula → Formula → Bool
  | number x _, number y _ => x == y
  | literal s _, literal t _ => s == t
  | indicator s _, indicator t _ => s == t
  | call f xs _, call g ys _ => f == g && allAlike xs ys
  | hole, hole => true
  | _, _ => false

/-- Whether two rows of formulas are the same but for places. -/
def allAlike : List Formula → List Formula → Bool
  | [], [] => true
  | x :: xs, y :: ys => alike x y && allAlike xs ys
  | _, _ => false

end

mutual

/-- Whether no part of the formula is still open. -/
def isComplete : Formula → Bool
  | call _ args _ => areComplete args
  | hole => false
  | _ => true

/-- Whether no part of any of the formulas is still open. -/
def areComplete : List Formula → Bool
  | [] => true
  | f :: rest => isComplete f && areComplete rest

end

end Formula

end IndicatorFormula
