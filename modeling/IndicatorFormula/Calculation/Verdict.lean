import IndicatorFormula.Formula.Check
import IndicatorFormula.Formula.Dependencies
import IndicatorFormula.Formula.Reader
import IndicatorFormula.Store.Basic

/-!
# Checking a formula without running it

A formula is in order if it can be read, if its calls fit its functions and if a store, when
there is one, has all its indicators.
-/

namespace IndicatorFormula

/-- What came of checking a formula. -/
structure Verdict where
  /-- Whether the formula is in order. -/
  valid : Bool
  /-- The indicators on which it depends. -/
  dependencies : List String := []
  /-- Those that are not there. -/
  unknownIndicators : List String := []
  /-- What is wrong. -/
  error : Option CalcError := none
  deriving Repr

namespace Verdict

/-- A formula that is wrong in itself. -/
def refused (e : CalcError) : Verdict := { valid := false, error := some e }

/-- A formula whose dependencies are known, given those that are not there. -/
def ofMissing (dependencies missing : List String) : Verdict :=
  if missing.isEmpty then { valid := true, dependencies }
  else {
    valid := false
    dependencies
    unknownIndicators := missing
    error := some { cause := .unknownIndicators missing } }

/-- A way in which a check can break off. -/
inductive Interruption where
  /-- The formula has a part that is still open. -/
  | formula (f : Fault)
  /-- The store failed. -/
  | store (f : StoreFault)
  deriving Repr

/-- Read a formula and check its calls. -/
def examine (text : String) : Except Fault Formula :=
  match Formula.read text with
  | .error e => .error (.reported (.ofRead e))
  | .ok tree => tree.shape.map fun _ => tree

/-- Check a formula, with the calls to the store that this takes. -/
def run (store : Option SeriesStore) (text : String) :
    List StoreCall × Except Interruption Verdict :=
  match examine text with
  | .error (.reported e) => ([], .ok (refused e))
  | .error fault => ([], .error (.formula fault))
  | .ok tree =>
    match store with
    | none => ([], .ok (ofMissing tree.dependencies []))
    | some store =>
      let survey := store.survey tree.dependencies
      (survey.calls, match survey.outcome with
        | .error (_, fault) => .error (.store fault)
        | .ok missing => .ok (ofMissing tree.dependencies missing))

end Verdict

end IndicatorFormula
