import IndicatorFormula.Context
import IndicatorFormula.Formula.Basic
import IndicatorFormula.Function.Apply
import IndicatorFormula.Table

/-!
# Evaluating formulas

The value of a formula over the observations of its indicators. A call is evaluated only if
its function exists and has the right count of arguments; its arguments are evaluated from
left to right, and an error that arises in the call itself is told of that call.
-/

namespace IndicatorFormula.Formula

/-- The series of the indicators by slug. -/
abbrev Observed := Table String (Series Float)

/-- The series of an indicator that is named at some place of a formula. -/
def resolve (observed : Observed) (slug : String) (position : Nat) : Except Fault (Series Float) :=
  match observed.find? slug with
  | some s => .ok s
  | none => .error (.reported { cause := .unknownIndicators [slug], position := some position })

/-- The error of a call whose function does not exist. -/
def unknownFunction (name : String) (position : Nat) : CalcError :=
  { cause := .unknownFunction name, position := some position, function := some name }

/-- The error of a call with the wrong count of arguments. -/
def wrongCount (f : Function) (got position : Nat) : CalcError :=
  { cause := .wrongCount f got, position := some position, function := some f.name }

/-- The error of an argument that does not fit its place. -/
def badArgument (f : Function) (index position : Nat) (cause : Cause) : CalcError :=
  { cause, position := some position, argumentIndex := some index, function := some f.name }

/-- The error of a quoted text that no function takes. -/
def strayText (position : Nat) : CalcError := { cause := .strayText, position := some position }

/-- A text argument as it stands. -/
def textArgument (f : Function) (index : Nat) : Formula → Except Fault (Placed String)
  | literal content position => .ok ⟨content, position⟩
  | other => match other.position? with
    | some position => .error (.reported (badArgument f index position (.notText f index)))
    | none => .error .openText

/-- A value as an argument for a place that takes it. -/
def valueArgument (f : Function) (index position : Nat) :
    (expected : Slot) → Value → Except Fault (Placed expected.Carrier)
  | .scalar, .scalar x => .ok ⟨x, position⟩
  | .series, .series s => .ok ⟨s, position⟩
  | expected, v =>
    .error (.reported (badArgument f index position (.wrongShape f index expected v.shape)))

/-- The argument for a place of the function, given the outcome of evaluating it.
A text argument is not evaluated. -/
def argument (f : Function) (index : Nat) :
    (slot : Slot) → (arg : Formula) → Except Fault Value → Except Fault (Placed slot.Carrier)
  | .text, arg, _ => textArgument f index arg
  | slot, literal _ position, _ =>
    .error (.reported (badArgument f index position (.textArgument f index slot)))
  | slot, arg, outcome =>
    match outcome with
    | .error e => .error e
    | .ok v => valueArgument f index (arg.position?.getD 0) slot v

/-- Tell the error of a call of that call. -/
def told {β : Type} (f : Function) (position : Nat) : Except Fault β → Except Fault β
  | .error (.reported e) => .error (.reported (e.within f position))
  | r => r

mutual

/-- The value of a formula. -/
def value (observed : Observed) : Formula → Except Fault Value
  | number x _ => .ok (.scalar x)
  | literal _ position => .error (.reported (strayText position))
  | indicator slug position => (resolve observed slug position).map .series
  | call name args position =>
    match Function.ofName? name with
    | none => .error (.reported (unknownFunction name position))
    | some f =>
      if args.length ≠ f.arity then .error (.reported (wrongCount f args.length position))
      else
        match arguments observed f position 0 f.slots args with
        | .error e => .error e
        | .ok values =>
          (told f position (f.apply ⟨name, resolve observed⟩ values)).map (Value.of f.returns)
  | hole => .error .openPlace

/-- The arguments of a call, each fitting its place in the function. -/
def arguments (observed : Observed) (f : Function) (position index : Nat) :
    (slots : List Slot) → List Formula → Except Fault (Arguments slots)
  | [], _ => .ok ()
  | _ :: _, [] => .error (.reported (wrongCount f index position))
  | slot :: slots, arg :: args =>
    match argument f index slot arg (value observed arg) with
    | .error e => .error e
    | .ok first => (arguments observed f position (index + 1) slots args).map (first, ·)

end

/-- The series of fetched observations. -/
def observe (context : Context) (fetched : Table String (List (Observation Float))) :
    Except Fault Observed :=
  fetched.mapM fun entry =>
    ((Series.ofObservations context entry.2).mapError Fault.observation).map (entry.1, ·)

/-- The value of a formula over fetched observations. -/
def evaluate (f : Formula) (fetched : Table String (List (Observation Float)))
    (context : Context) : Except Fault Value := do
  let observed ← observe context fetched
  f.value observed

end IndicatorFormula.Formula
