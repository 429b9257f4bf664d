import IndicatorFormula.Formula.Evaluate

/-!
# Checking formulas

What shape of value a formula has can be told without its data: an indicator is a series, a
number is a scalar, and a function declares its result. The check refuses what evaluation
would refuse whatever the data are.
-/

namespace IndicatorFormula.Formula

/-- Whether a place takes a value of some shape. -/
def slotTakes (f : Function) (index position : Nat) : Slot → Shape → Except Fault Unit
  | .scalar, .scalar => .ok ()
  | .series, .series => .ok ()
  | expected, got =>
    .error (.reported (badArgument f index position (.wrongShape f index expected got)))

/-- Check one argument, given the outcome of checking its formula. -/
def checkArgument (f : Function) (index : Nat) :
    Slot → (arg : Formula) → Except Fault Shape → Except Fault Unit
  | .text, arg, _ => (textArgument f index arg).map fun _ => ()
  | expected, literal _ position, _ =>
    .error (.reported (badArgument f index position (.textArgument f index expected)))
  | expected, arg, outcome =>
    match outcome with
    | .error e => .error e
    | .ok got => slotTakes f index (arg.position?.getD 0) expected got

mutual

/-- The shape of the value of a formula. -/
def shape : Formula → Except Fault Shape
  | number _ _ => .ok .scalar
  | literal _ position => .error (.reported (strayText position))
  | indicator _ _ => .ok .series
  | call name args position =>
    match Function.ofName? name with
    | none => .error (.reported (unknownFunction name position))
    | some f =>
      if args.length ≠ f.arity then .error (.reported (wrongCount f args.length position))
      else (checkArguments f 0 f.slots args).map fun _ => f.returns
  | hole => .error .openPlace

/-- Check the arguments of a call. -/
def checkArguments (f : Function) (index : Nat) : List Slot → List Formula → Except Fault Unit
  | expected :: more, arg :: args =>
    match checkArgument f index expected arg (shape arg) with
    | .error e => .error e
    | .ok _ => checkArguments f (index + 1) more args
  | _, _ => .ok ()

end

end IndicatorFormula.Formula
