import IndicatorFormula.Calculation.Verdict
import IndicatorFormula.Proofs.Evaluation.Basic

/-!
# Agreement of the check with the evaluation

The check and the evaluation go through a formula in the same way, the one over shapes and
the other over values. Step by step their outcomes go together: both give something, and the
value has the shape; or both refuse with one and the same fault; or the evaluation fails in
a way that no check can foresee.
-/

namespace IndicatorFormula.Formula

/-- How the outcome of an evaluation goes with that of the check, given what a value must
have to do with what was checked and which indicators are missing. -/
inductive Agrees {β γ : Type} (missing : String → Prop) (fits : β → γ → Prop) :
    Except Fault β → Except Fault γ → Prop
  /-- Both give something. -/
  | both {k : β} {v : γ} (fit : fits k v) : Agrees missing fits (.ok k) (.ok v)
  /-- Both refuse. -/
  | refused {fault : Fault} (early : fault.IsEarly) :
    Agrees missing fits (.error fault) (.error fault)
  /-- The evaluation alone can find the fault. -/
  | late {checked : Except Fault β} {fault : Fault} (late : fault.IsLate missing) :
    Agrees missing fits checked (.error fault)

/-- More indicators may be missing. -/
theorem Agrees.mono {β γ : Type} {missing missing' : String → Prop} {fits : β → γ → Prop}
    {checked : Except Fault β} {evaluated : Except Fault γ}
    (h : Agrees missing fits checked evaluated)
    (hsub : ∀ slug, missing slug → missing' slug) : Agrees missing' fits checked evaluated := by
  cases h with
  | both fit => exact .both fit
  | refused early => exact .refused early
  | late hlate => exact .late (hlate.mono hsub)

/-- A value of a shape. -/
def HasShape (k : Shape) (v : Value) : Prop := v.shape = k

/-- What is checked of arguments has no value of its own. -/
def Checked {γ : Type} (_ : Unit) (_ : γ) : Prop := True

/-- Outcomes that go together do so after one more step of each. -/
theorem Agrees.bind {β β' γ γ' : Type} {missing : String → Prop} {fits : β → γ → Prop}
    {fits' : β' → γ' → Prop} {checked : Except Fault β} {evaluated : Except Fault γ}
    {next : β → Except Fault β'} {next' : γ → Except Fault γ'}
    (h : Agrees missing fits checked evaluated)
    (hnext : ∀ k v, evaluated = .ok v → fits k v → Agrees missing fits' (next k) (next' v)) :
    Agrees missing fits' (checked >>= next) (evaluated >>= next') := by
  cases h with
  | both fit => exact hnext _ _ rfl fit
  | refused early => exact .refused early
  | late hlate => exact .late hlate

/-- A value may be mapped if what is checked of it still fits. -/
theorem Agrees.map {β γ γ' : Type} {missing : String → Prop} {fits : β → γ → Prop}
    {fits' : β → γ' → Prop} {checked : Except Fault β} {evaluated : Except Fault γ} {g : γ → γ'}
    (h : Agrees missing fits checked evaluated) (hfits : ∀ k v, fits k v → fits' k (g v)) :
    Agrees missing fits' checked (evaluated.map g) := by
  cases h with
  | both fit => exact .both (hfits _ _ fit)
  | refused early => exact .refused early
  | late hlate => exact .late hlate

variable {missing : String → Prop} {observed : Observed} {f : Function}

/-- A shape is taken just when the value is. -/
theorem slotTakes_agrees {index position : Nat} {slot : Slot} {v : Value} :
    Agrees missing Checked (slotTakes f index position slot v.shape)
      (valueArgument f index position slot v) := by
  cases slot <;> cases v
  case series.series => exact .both trivial
  case scalar.scalar => exact .both trivial
  all_goals exact .refused rfl

/-- An argument that is not a text is checked by its shape. -/
theorem checkArgument_eq {index : Nat} {slot : Slot} {arg : Formula} (hslot : slot ≠ .text)
    (harg : ∀ content p, arg ≠ literal content p) (outcome : Except Fault Shape) :
    checkArgument f index slot arg outcome =
      outcome >>= slotTakes f index (arg.position?.getD 0) slot := by
  cases slot with
  | text => exact absurd rfl hslot
  | series | scalar =>
    cases arg with
    | literal content p => exact absurd rfl (harg content p)
    | _ => cases outcome <;> rfl

/-- An argument that is not the text that a function takes is an early fault. -/
theorem isEarly_of_textArgument {index : Nat} {arg : Formula} {fault : Fault}
    (h : textArgument f index arg = .error fault) : fault.IsEarly := by
  cases arg <;> cases h
  case hole => trivial
  all_goals rfl

/-- An argument is checked as it is evaluated. -/
theorem checkArgument_agrees {index : Nat} {slot : Slot} {arg : Formula}
    {checked : Except Fault Shape} {evaluated : Except Fault Value}
    (h : Agrees missing HasShape checked evaluated) :
    Agrees missing Checked (checkArgument f index slot arg checked)
      (argument f index slot arg evaluated) := by
  by_cases hslot : slot = .text
  · subst hslot
    simp only [checkArgument, argument]
    cases htext : textArgument f index arg with
    | error fault => exact .refused (isEarly_of_textArgument htext)
    | ok text => exact .both trivial
  · by_cases harg : ∀ content p, arg ≠ literal content p
    · rw [checkArgument_eq hslot harg, argument_eq hslot harg]
      refine h.bind fun k v _ fit => ?_
      cases fit
      exact slotTakes_agrees
    · simp only [ne_eq, not_forall, not_not] at harg
      obtain ⟨content, p, rfl⟩ := harg
      cases slot with
      | text => exact absurd rfl hslot
      | series | scalar => exact .refused rfl

/-- Arguments are checked one by one. -/
theorem checkArguments_cons {index : Nat} {slot : Slot} {slots : List Slot} {arg : Formula}
    {args : List Formula} :
    checkArguments f index (slot :: slots) (arg :: args) =
      (checkArgument f index slot arg arg.shape >>= fun _ =>
        checkArguments f (index + 1) slots args) := by
  rw [checkArguments]
  cases checkArgument f index slot arg arg.shape <;> rfl

/-- Checking the arguments of a call goes together with evaluating them. -/
theorem checkArguments_agrees {index position : Nat} {slots : List Slot} {args : List Formula}
    (hlength : args.length = slots.length)
    (h : ∀ arg ∈ args, Agrees missing HasShape arg.shape (arg.value observed)) :
    Agrees missing Checked (checkArguments f index slots args)
      (arguments observed f position index slots args) := by
  induction slots generalizing index args with
  | nil =>
    obtain rfl := List.length_eq_zero_iff.mp hlength
    exact .both trivial
  | cons slot slots ih =>
    cases args with
    | nil => simp at hlength
    | cons arg args =>
      obtain ⟨harg, hargs⟩ := List.forall_mem_cons.mp h
      rw [checkArguments_cons, arguments_cons]
      refine (checkArgument_agrees harg).bind fun _ first _ _ => ?_
      exact (ih (by simpa using hlength) hargs).map fun _ _ _ => trivial

/-- The indicators of a formula that have no series. -/
def Missing (observed : Observed) (f : Formula) (slug : String) : Prop :=
  slug ∈ f.slugs ∧ observed.find? slug = none

/-- An indicator that has no series is missing. -/
theorem isLate_of_resolve {slug : String} {position : Nat} {fault : Fault}
    (hmissing : observed.find? slug = none → missing slug)
    (h : resolve observed slug position = .error fault) : fault.IsLate missing := by
  unfold resolve at h
  split at h
  · cases h
  · rename_i hnone
    cases h
    exact ⟨slug, rfl, hmissing hnone⟩

/-- A call of a known function with the right count has the shape that it returns. -/
theorem shape_call {name : String} {args : List Formula} {position : Nat}
    (hfunction : Function.ofName? name = some f) (hlength : args.length = f.arity) :
    shape (call name args position) =
      (checkArguments f 0 f.slots args >>= fun _ => .ok f.returns) := by
  simp only [shape, hfunction, hlength, ne_eq, not_true_eq_false, if_false]
  cases checkArguments f 0 f.slots args <;> rfl

/-- A call agrees with its check if its arguments do. -/
private theorem call_agrees {name : String} {args : List Formula} {position : Nat}
    (hname : isCapitalName name.toList = true)
    (h : ∀ arg ∈ args, Agrees (Missing observed arg) HasShape arg.shape (arg.value observed)) :
    Agrees (Missing observed (call name args position)) HasShape
      (call name args position).shape ((call name args position).value observed) := by
  cases hfunction : Function.ofName? name with
  | none =>
    simp only [shape, value, hfunction]
    exact .refused rfl
  | some f =>
    by_cases hlength : args.length = f.arity
    · obtain rfl := name_eq_of_ofName? hname hfunction
      rw [shape_call hfunction hlength, value_call hfunction hlength]
      have hargs : Agrees (Missing observed (call f.name args position)) Checked
          (checkArguments f 0 f.slots args) (arguments observed f position 0 f.slots args) :=
        checkArguments_agrees hlength fun arg harg =>
          (h arg harg).mono fun slug hslug => ⟨mem_argSlugs harg hslug.1, hslug.2⟩
      refine hargs.bind fun _ values hvalues _ => ?_
      have hslugs := argSlugs_eq hlength hvalues
      cases happly : told f position (f.apply ⟨f.name, resolve observed⟩ values) with
      | ok x => exact .both (Value.shape_of f.returns x)
      | error fault =>
        refine .late (isLate_of_told happly fun fault => Function.isLate_of_apply rfl ?_)
        intro slug hslug p fault hresolve
        refine isLate_of_resolve (fun hnone => ⟨?_, hnone⟩) hresolve
        simp only [slugs, hslugs, List.mem_append, hslug, true_or]
    · simp only [shape, value, hfunction, ne_eq, hlength, not_false_eq_true, if_true]
      exact .refused rfl

/-- Checking a formula that can be written goes together with evaluating it. -/
theorem shape_agrees {f : Formula} (h : f.isCanonical = true) (observed : Observed) :
    Agrees (Missing observed f) HasShape f.shape (f.value observed) := by
  induction f using Formula.induction with
  | number x p => exact .both rfl
  | literal s p => exact .refused rfl
  | indicator slug p =>
    have hresolve : Agrees (Missing observed (indicator slug p)) HasShape (.ok .series)
        ((resolve observed slug p).map Value.series) := by
      cases hs : resolve observed slug p with
      | ok s => exact .both rfl
      | error fault =>
        exact .late (isLate_of_resolve (fun hnone => ⟨List.mem_singleton.mpr rfl, hnone⟩) hs)
    simpa only [shape, value] using hresolve
  | call name args p ih =>
    obtain ⟨hname, -, -, hargs⟩ := isCanonical_call_iff.mp h
    exact call_agrees hname fun arg harg => ih arg harg (hargs arg harg)
  | hole => exact .refused trivial

/-- Nothing is missing if something was fetched for each of the indicators. -/
theorem not_missing_of_fetched {f : Formula}
    {fetched : Table String (List (Observation Float))} {context : Context}
    (h : observe context fetched = .ok observed)
    (hkeys : ∀ slug ∈ f.dependencies, (fetched.find? slug).isSome = true) (slug : String) :
    ¬Missing observed f slug := by
  intro hmissing
  have hkey := hkeys slug (Slugs.mem_ofList.mpr hmissing.1)
  rw [(find?_observe_eq_none_iff h slug).mp hmissing.2] at hkey
  simp at hkey

/-- A formula that passes the check has a value of its shape, unless the data are at fault. -/
theorem value_of_shape_eq_ok {f : Formula} {k : Shape} (hf : f.isCanonical = true)
    (h : f.shape = .ok k) (hmissing : ∀ slug, ¬Missing observed f slug) :
    (∃ v, f.value observed = .ok v ∧ v.shape = k) ∨
      (∃ e, f.value observed = .error (.reported e) ∧ e.cause.isMiscall = false ∧
        e.code ≠ .unknownIndicator) ∨
      ∃ e, f.value observed = .error (.breakdown e) := by
  have hagrees := shape_agrees hf observed
  rw [h] at hagrees
  generalize f.value observed = outcome at hagrees
  cases hagrees with
  | both fit => exact .inl ⟨_, rfl, fit⟩
  | late hlate =>
    rename_i fault
    cases fault with
    | reported e => exact .inr (.inl ⟨e, rfl, hlate.isMiscall, hlate.code_ne hmissing⟩)
    | breakdown e => exact .inr (.inr ⟨e, rfl⟩)
    | _ => exact hlate.elim

/-- A formula that the check refuses has no value. -/
theorem exists_evaluate_eq_error {f : Formula} {fault : Fault} (hf : f.isCanonical = true)
    (h : f.shape = .error fault) (fetched : Table String (List (Observation Float)))
    (context : Context) : ∃ fault', f.evaluate fetched context = .error fault' := by
  cases hobserved : observe context fetched with
  | error fault' => exact ⟨fault', (evaluate_eq_observation hobserved).1⟩
  | ok observed =>
    have hagrees := shape_agrees hf observed
    rw [h, ← evaluate_eq_value hobserved] at hagrees
    generalize f.evaluate fetched context = outcome at hagrees
    cases hagrees with
    | refused early => exact ⟨_, rfl⟩
    | late hlate => exact ⟨_, rfl⟩

/-- An error that a check can find is found by the check. -/
theorem shape_eq_error_of_isMiscall {f : Formula} {e : CalcError} (hf : f.isCanonical = true)
    {fetched : Table String (List (Observation Float))} {context : Context}
    (h : f.evaluate fetched context = .error (.reported e)) (hcall : e.cause.isMiscall = true) :
    f.shape = .error (.reported e) := by
  obtain ⟨observed, -, hvalue⟩ := exists_value_of_evaluate h
  have hagrees := shape_agrees hf observed
  rw [hvalue] at hagrees
  generalize f.shape = checked at hagrees
  cases hagrees with
  | refused early => rfl
  | late hlate => simp [Cause.IsLate.isMiscall hlate] at hcall

/-- The check and the evaluation of whatever was read agree. A formula that passes the check
has a value of its shape, or the data, a text or a count of points are at fault; a formula
that is refused has no value; and an error of a call is the error of which the check tells. -/
theorem evaluate_agrees_with_shape {text : String} {f : Formula} (hread : read text = .ok f) :
    (∀ k, f.shape = .ok k → ∀ fetched context observed,
      observe context fetched = .ok observed →
      (∀ slug ∈ f.dependencies, (fetched.find? slug).isSome = true) →
        (∃ v, f.evaluate fetched context = .ok v ∧ v.shape = k) ∨
        (∃ e, f.evaluate fetched context = .error (.reported e) ∧
          e.cause.isMiscall = false ∧ e.code ≠ .unknownIndicator) ∨
        ∃ e, f.evaluate fetched context = .error (.breakdown e)) ∧
    (∀ fault, f.shape = .error fault → ∀ fetched context,
      ∃ fault', f.evaluate fetched context = .error fault') ∧
    ∀ fetched context e, f.evaluate fetched context = .error (.reported e) →
      e.cause.isMiscall = true → ∀ store, Verdict.run store text = ([], .ok (.refused e)) := by
  have hf := isCanonical_of_read hread
  refine ⟨?_, ?_, ?_⟩
  · intro k hk fetched context observed hobserved hkeys
    rw [evaluate_eq_value hobserved]
    exact value_of_shape_eq_ok hf hk (not_missing_of_fetched hobserved hkeys)
  · intro fault hfault fetched context
    exact exists_evaluate_eq_error hf hfault fetched context
  · intro fetched context e he hcall store
    have hshape := shape_eq_error_of_isMiscall hf he hcall
    simp [Verdict.run, Verdict.examine, hread, hshape, Except.map]

/-- Two observations of an indicator. -/
def twoDays : List (Observation Float) :=
  [⟨.ofDate ⟨1⟩, some 1.0⟩, ⟨.ofDate ⟨2⟩, some 2.5⟩]

/-- A sum over an indicator with two points is in order and has a value of its shape. -/
theorem evaluate_agrees_with_shape_sum :
    let sum : Formula := call "SUM" [indicator "a" 4] 0
    read "SUM(a)" = .ok sum ∧ sum.shape = .ok .scalar ∧
      observe {} [("a", twoDays)] = .ok [("a", [(⟨1⟩, 1.0), (⟨2⟩, 2.5)])] ∧
      sum.evaluate [("a", twoDays)] {} = .ok (.scalar 3.5) ∧
      ∃ v, sum.evaluate [("a", twoDays)] {} = .ok v ∧ v.shape = .scalar := by
  intro sum
  have hread : read "SUM(a)" = .ok sum := by rfl
  have hshape : sum.shape = .ok .scalar := by rfl
  have hobserved : observe {} [("a", twoDays)] = .ok [("a", [(⟨1⟩, 1.0), (⟨2⟩, 2.5)])] := by rfl
  have hsum : Arith.sum [1.0, 2.5] = (3.5 : Float) := by
    rw [Arith.sum]
    rfl
  have hvalue : sum.evaluate [("a", twoDays)] {} = .ok (.scalar 3.5) := by
    rw [evaluate_eq_value hobserved, ← hsum]
    rfl
  refine ⟨hread, hshape, hobserved, hvalue, ?_⟩
  rcases (evaluate_agrees_with_shape hread).1 .scalar hshape [("a", twoDays)] {} _ hobserved
    (by decide) with h | ⟨e, h, -⟩ | ⟨e, h⟩
  · exact h
  · cases hvalue.symm.trans h
  · cases hvalue.symm.trans h

end IndicatorFormula.Formula
