import IndicatorFormula.Proofs.Formula.Canonical
import IndicatorFormula.Proofs.Formula.Places

/-!
# The parts of a formula

A formula is made of parts: the formula itself, its arguments, and theirs in turn. What is said
of every part of a formula holds of the parts of each argument as well.
-/

namespace IndicatorFormula.Formula

mutual

/-- A formula with everything that stands in it. -/
def parts : Formula → List Formula
  | call name args p => call name args p :: allParts args
  | f => [f]

/-- What stands in any of some formulas. -/
def allParts : List Formula → List Formula
  | [] => []
  | f :: rest => parts f ++ allParts rest

end

/-- The parts of arguments are the parts of each of them, in order. -/
theorem allParts_eq_flatMap (args : List Formula) : allParts args = args.flatMap parts := by
  induction args with
  | nil => rfl
  | cons f rest ih => rw [allParts, ih, List.flatMap_cons]

/-- The whole is a part of itself. -/
theorem mem_parts_self (f : Formula) : f ∈ f.parts := by
  cases f <;> simp [parts]

/-- The parts of a call are the call and those of its arguments. -/
theorem mem_parts_call {g : Formula} {name : String} {args : List Formula} {p : Nat} :
    g ∈ (call name args p).parts ↔ g = call name args p ∨ ∃ arg ∈ args, g ∈ arg.parts := by
  rw [parts, List.mem_cons, allParts_eq_flatMap, List.mem_flatMap]

/-- Every part of a formula that can be written can be written. -/
theorem isCanonical_of_mem_parts {f g : Formula} (hf : f.isCanonical = true) (hg : g ∈ f.parts) :
    g.isCanonical = true := by
  induction f using Formula.induction with
  | call name args p ih =>
    obtain ⟨-, -, -, hargs⟩ := isCanonical_call_iff.mp hf
    rcases mem_parts_call.mp hg with rfl | ⟨arg, harg, hg⟩
    · exact hf
    · exact ih arg harg (hargs arg harg) hg
  | _ =>
    obtain rfl := List.mem_singleton.mp hg
    exact hf

end IndicatorFormula.Formula
