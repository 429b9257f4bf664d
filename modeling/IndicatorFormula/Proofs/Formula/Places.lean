import IndicatorFormula.Formula.Printer
import Mathlib.Data.List.Forall2

/-!
# Formulas without their places

Where the parts of a formula stand in a text plays no role in what it means or in how it is
written. Two formulas that are equal without their places are alike, and their canonical
forms are the same.
-/

namespace IndicatorFormula.Formula

/-- What holds of every leaf, and of every call of whose arguments it holds, holds always. -/
@[elab_as_elim]
theorem induction {motive : Formula → Prop} (number : ∀ x p, motive (.number x p))
    (literal : ∀ s p, motive (.literal s p)) (indicator : ∀ s p, motive (.indicator s p))
    (call : ∀ name args p, (∀ f ∈ args, motive f) → motive (.call name args p))
    (hole : motive .hole) (f : Formula) : motive f :=
  @Formula.rec motive (fun args => ∀ f ∈ args, motive f) number literal indicator call hole
    (by simp) (fun _ _ first others => List.forall_mem_cons.mpr ⟨first, others⟩) f

mutual

/-- The formula with every part at the beginning of the text. -/
def unplaced : Formula → Formula
  | number x _ => number x 0
  | literal s _ => literal s 0
  | indicator s _ => indicator s 0
  | call name args _ => call name (allUnplaced args) 0
  | hole => hole

/-- A row of formulas with every part at the beginning of the text. -/
def allUnplaced : List Formula → List Formula
  | [] => []
  | f :: rest => unplaced f :: allUnplaced rest

end

/-- Arguments lose their places one by one. -/
theorem allUnplaced_eq_map (args : List Formula) : allUnplaced args = args.map unplaced := by
  induction args with
  | nil => rfl
  | cons f rest ih => rw [allUnplaced, ih, List.map_cons]

/-- Rows that are equal without places go together one by one, in whatever every formula of the
first goes together with all that equal it without places. -/
theorem forall₂_of_map_unplaced_eq {R : Formula → Formula → Prop} {xs ys : List Formula}
    (h : ∀ f ∈ xs, ∀ g : Formula, f.unplaced = g.unplaced → R f g)
    (heq : xs.map unplaced = ys.map unplaced) : List.Forall₂ R xs ys := by
  induction xs generalizing ys with
  | nil =>
    rw [List.map_nil, eq_comm, List.map_eq_nil_iff] at heq
    rw [heq]
    exact .nil
  | cons f xs ih =>
    cases ys with
    | nil => simp at heq
    | cons g ys =>
      obtain ⟨hf, hothers⟩ := List.forall_mem_cons.mp h
      obtain ⟨hfirst, hrest⟩ := List.cons.inj heq
      exact .cons (hf g hfirst) (ih hothers hrest)

/-- What equals a call without places is a call of that name with such arguments. -/
theorem exists_call_of_unplaced_eq {name : String} {args : List Formula} {p : Nat} {g : Formula}
    (h : (call name args p).unplaced = g.unplaced) :
    ∃ args' q, g = call name args' q ∧ args.map unplaced = args'.map unplaced := by
  cases g <;> simp only [unplaced, reduceCtorEq, Formula.call.injEq, and_true] at h
  obtain ⟨rfl, hargs⟩ := h
  rw [allUnplaced_eq_map, allUnplaced_eq_map] at hargs
  exact ⟨_, _, rfl, hargs⟩

/-- Arguments that print alike print alike as a row. -/
private theorem argChars_congr {xs ys : List Formula} (h : xs.map chars = ys.map chars) :
    argChars xs = argChars ys := by
  induction xs generalizing ys with
  | nil =>
    rw [List.map_nil, eq_comm, List.map_eq_nil_iff] at h
    rw [h]
  | cons f xs ih =>
    cases ys with
    | nil => simp at h
    | cons g ys =>
      obtain ⟨hfirst, hothers⟩ := List.cons.inj h
      have htail := ih hothers
      cases xs with
      | nil =>
        have hnil : ys = [] := by simpa using hothers.symm
        simp [argChars, hfirst, hnil]
      | cons f' xs =>
        cases ys with
        | nil => simp at hothers
        | cons g' ys => simp only [argChars, hfirst, htail]

/-- Places are not written. -/
theorem chars_unplaced (f : Formula) : chars f.unplaced = chars f := by
  induction f using Formula.induction with
  | number x p => rfl
  | literal s p => rfl
  | indicator s p => rfl
  | call name args p ih =>
    have hargs : argChars (allUnplaced args) = argChars args := by
      apply argChars_congr
      rw [allUnplaced_eq_map, List.map_map]
      exact List.map_congr_left ih
    simp only [unplaced, chars, hargs]
  | hole => rfl

/-- Formulas that are equal without their places have one canonical form. -/
theorem toText_congr {f g : Formula} (h : f.unplaced = g.unplaced) : f.toText = g.toText := by
  rw [toText, ← chars_unplaced f, h, chars_unplaced g, toText]

end IndicatorFormula.Formula
