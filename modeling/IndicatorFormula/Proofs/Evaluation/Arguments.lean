import IndicatorFormula.Proofs.Evaluation.Basic

/-!
# The arguments of a call

The arguments with which a function is applied are what the formulas in its places give: the
value of each, or its text. So a call that has a value has it of its function, applied to the
values of its own arguments.
-/

namespace IndicatorFormula

/-- The series in a row of arguments. -/
def Arguments.series : (ks : List Slot) → Arguments ks → List (Series Float)
  | [], _ => []
  | .series :: ks, values => values.1.value :: series ks values.2
  | .scalar :: ks, values | .text :: ks, values => series ks values.2

namespace Formula

variable {observed : Observed} {f : Function}

/-- What a formula gives for a place: its value, which fits the place, or its text. -/
def Gives (observed : Observed) (arg : Formula) : (k : Slot) → Placed k.Carrier → Prop
  | .series, s => arg.value observed = .ok (.series s.value)
  | .scalar, x => arg.value observed = .ok (.scalar x.value)
  | .text, text => arg = literal text.value text.position

/-- What a row of formulas gives for a row of places. -/
def AllGive (observed : Observed) : (ks : List Slot) → Arguments ks → List Formula → Prop
  | [], _, [] => True
  | k :: ks, values, arg :: args =>
    Gives observed arg k values.1 ∧ AllGive observed ks values.2 args
  | _, _, _ => False

/-- A value that a place takes is given by its argument. -/
theorem gives_of_valueArgument {arg : Formula} {v : Value} {index position : Nat} {k : Slot}
    {x : Placed k.Carrier} (hv : arg.value observed = .ok v)
    (h : valueArgument f index position k v = .ok x) : Gives observed arg k x := by
  cases k <;> cases v <;> cases h
  · exact hv
  · exact hv

/-- An argument that a place takes is given by its formula. -/
theorem gives_of_argument {arg : Formula} {index : Nat} {k : Slot} {x : Placed k.Carrier}
    (h : argument f index k arg (arg.value observed) = .ok x) : Gives observed arg k x := by
  by_cases hk : k = .text
  · subst hk
    cases arg <;> cases h
    rfl
  · by_cases harg : ∀ content p, arg ≠ literal content p
    · rw [argument_eq hk harg] at h
      obtain ⟨v, hv, hx⟩ := Except.bind_eq_ok.mp h
      exact gives_of_valueArgument hv hx
    · simp only [ne_eq, not_forall, not_not] at harg
      obtain ⟨content, p, rfl⟩ := harg
      cases k with
      | text => exact absurd rfl hk
      | series | scalar => cases h

/-- Arguments that a function takes are given by their formulas. -/
theorem allGive_of_arguments {position index : Nat} {ks : List Slot} {args : List Formula}
    {values : Arguments ks} (hlength : args.length = ks.length)
    (h : arguments observed f position index ks args = .ok values) :
    AllGive observed ks values args := by
  induction ks generalizing index args with
  | nil =>
    obtain rfl := List.length_eq_zero_iff.mp hlength
    trivial
  | cons k ks ih =>
    cases args with
    | nil => cases hlength
    | cons arg args =>
      rw [arguments_cons] at h
      obtain ⟨first, hfirst, h⟩ := Except.bind_eq_ok.mp h
      obtain ⟨rest, hrest, rfl⟩ := Except.map_eq_ok.mp h
      exact ⟨gives_of_argument hfirst, ih (Nat.succ.inj hlength) hrest⟩

/-- A call that has a value names a function, which made the value of what the arguments
give. -/
theorem value_call_inv {name : String} {args : List Formula} {position : Nat} {v : Value}
    (h : value observed (call name args position) = .ok v) :
    ∃ (f : Function) (values : Arguments f.slots) (x : f.returns.Carrier),
      Function.ofName? name = some f ∧ args.length = f.arity ∧
        arguments observed f position 0 f.slots args = .ok values ∧
        AllGive observed f.slots values args ∧
        f.apply ⟨name, resolve observed⟩ values = .ok x ∧ v = Value.of f.returns x := by
  cases hfunction : Function.ofName? name with
  | none => simp [value, hfunction] at h
  | some f =>
    by_cases hlength : args.length = f.arity
    · obtain ⟨values, x, hvalues, hx, hv⟩ := value_call_eq_ok hfunction hlength h
      exact ⟨f, values, x, rfl, hlength, hvalues, allGive_of_arguments hlength hvalues, hx, hv⟩
    · simp [value, hfunction, hlength] at h

/-- A formula gives a series for a place that takes one and only there. -/
theorem Gives.mem_series_cons {arg : Formula} {k : Slot} {x : Placed k.Carrier}
    {ks : List Slot} {values : Arguments ks} (h : Gives observed arg k x) {s : Series Float} :
    s ∈ Arguments.series (k :: ks) (x, values) ↔
      arg.value observed = .ok (.series s) ∨ s ∈ Arguments.series ks values := by
  cases k with
  | series =>
    rw [show arg.value observed = .ok (.series x.value) from h, Arguments.series, List.mem_cons]
    simp [eq_comm]
  | scalar =>
    rw [show arg.value observed = .ok (.scalar x.value) from h]
    simp [Arguments.series]
  | text =>
    obtain rfl : arg = literal x.value x.position := h
    simp [Arguments.series, value]

/-- The series among the arguments of a call are the values of those that have one. -/
theorem AllGive.mem_series {ks : List Slot} {values : Arguments ks} {args : List Formula}
    (h : AllGive observed ks values args) {s : Series Float} :
    s ∈ Arguments.series ks values ↔ ∃ arg ∈ args, arg.value observed = .ok (.series s) := by
  induction ks generalizing args with
  | nil =>
    cases args with
    | nil => simp [Arguments.series]
    | cons arg args => exact h.elim
  | cons k ks ih =>
    cases args with
    | nil => exact h.elim
    | cons arg args =>
      obtain ⟨hfirst, hrest⟩ := h
      simp only [List.mem_cons, exists_eq_or_imp, ← ih hrest]
      exact hfirst.mem_series_cons

end Formula

end IndicatorFormula
