import IndicatorFormula.Proofs.Evaluation.Agreement

/-!
# The dependencies of a formula

The collected slugs are those on which an evaluation depends, no fewer and no more: what is
fetched for another indicator plays no role, and a formula has a value only if every
collected slug has a series. This holds of slugs in texts as well, which the collection reads
beforehand and the evaluation only when the function is applied.
-/

namespace IndicatorFormula.Formula

variable {observed observed' : Observed} {f : Function} {name : String} {args : List Formula}

/-- Arguments of the same values are the same. -/
theorem arguments_congr {position index : Nat} {slots : List Slot}
    (h : ∀ arg ∈ args, arg.value observed = arg.value observed') :
    arguments observed f position index slots args =
      arguments observed' f position index slots args := by
  induction slots generalizing index args with
  | nil => simp only [arguments]
  | cons slot slots ih =>
    cases args with
    | nil => simp only [arguments]
    | cons arg args =>
      obtain ⟨harg, hargs⟩ := List.forall_mem_cons.mp h
      rw [arguments_cons, arguments_cons, harg, ih hargs]

/-- An indicator is looked up in what was observed of it. -/
theorem resolve_congr {slug : String} (h : observed.find? slug = observed'.find? slug) :
    resolve observed slug = resolve observed' slug := by
  funext position
  rw [resolve, resolve, h]

/-- A call depends on the values of its arguments and on the slugs in its texts. -/
private theorem call_congr {position : Nat} (hname : isCapitalName name.toList = true)
    (hargs : ∀ arg ∈ args, arg.value observed = arg.value observed')
    (h : ∀ slug ∈ argSlugs name args, observed.find? slug = observed'.find? slug) :
    (call name args position).value observed = (call name args position).value observed' := by
  cases hfunction : Function.ofName? name with
  | none => simp only [value, hfunction]
  | some f =>
    by_cases hlength : args.length = f.arity
    · obtain rfl := name_eq_of_ofName? hname hfunction
      rw [value_call hfunction hlength, value_call hfunction hlength, arguments_congr hargs]
      refine Except.bind_congr fun values hvalues => ?_
      have hslugs := argSlugs_eq hlength hvalues
      have happly : f.apply ⟨f.name, resolve observed⟩ values =
          f.apply ⟨f.name, resolve observed'⟩ values :=
        Function.apply_congr fun slug hslug => resolve_congr
          (h slug (by simp only [hslugs, List.mem_append, hslug, true_or]))
      rw [happly]
    · simp [value, hfunction, hlength]

/-- The value of a formula depends on its own indicators only. -/
theorem value_congr {f : Formula} (hf : f.isCanonical = true)
    (h : ∀ slug ∈ f.slugs, observed.find? slug = observed'.find? slug) :
    f.value observed = f.value observed' := by
  induction f using Formula.induction with
  | number x p => rfl
  | literal s p => rfl
  | indicator slug p =>
    simp only [value, resolve_congr (h slug (List.mem_singleton.mpr rfl))]
  | call name args p ih =>
    obtain ⟨hname, -, -, hargs⟩ := isCanonical_call_iff.mp hf
    refine call_congr hname (fun arg harg => ih arg harg (hargs arg harg) ?_) h
    exact fun slug hslug => h slug (mem_argSlugs harg hslug)
  | hole => rfl

/-- An argument of a call that has its arguments is a text or has a value. -/
theorem value_of_arguments_eq_ok {position index : Nat} {slots : List Slot}
    {values : Arguments slots} (hlength : args.length = slots.length)
    (h : arguments observed f position index slots args = .ok values) :
    ∀ arg ∈ args, arg.slugs = [] ∨ ∃ v, arg.value observed = .ok v := by
  induction slots generalizing index args with
  | nil =>
    obtain rfl := List.length_eq_zero_iff.mp hlength
    simp
  | cons slot slots ih =>
    cases args with
    | nil => simp at hlength
    | cons arg args =>
      rw [arguments_cons] at h
      obtain ⟨first, hfirst, h⟩ := Except.bind_eq_ok.mp h
      obtain ⟨others, hothers, -⟩ := Except.map_eq_ok.mp h
      refine List.forall_mem_cons.mpr ⟨?_, ih (by simpa using hlength) hothers⟩
      by_cases harg : ∀ content p, arg ≠ literal content p
      · by_cases hslot : slot = .text
        · subst hslot
          cases arg with
          | literal content p => exact .inl rfl
          | _ => cases hfirst
        · rw [argument_eq hslot harg] at hfirst
          obtain ⟨v, hv, -⟩ := Except.bind_eq_ok.mp hfirst
          exact .inr ⟨v, hv⟩
      · simp only [ne_eq, not_forall, not_not] at harg
        obtain ⟨content, p, rfl⟩ := harg
        exact .inl rfl

/-- An indicator that is found was observed. -/
theorem exists_find?_of_resolve {slug : String} {position : Nat} {s : Series Float}
    (h : resolve observed slug position = .ok s) : observed.find? slug ≠ none := by
  intro hnone
  simp [resolve, hnone] at h

/-- A formula that has a value has a series for each of its indicators. -/
theorem find?_ne_none_of_value {f : Formula} {v : Value} (hf : f.isCanonical = true)
    (h : f.value observed = .ok v) : ∀ slug ∈ f.slugs, observed.find? slug ≠ none := by
  induction f using Formula.induction generalizing v with
  | number x p => simp [slugs]
  | literal s p => simp [slugs]
  | indicator slug p =>
    obtain ⟨s, hs, -⟩ := Except.map_eq_ok.mp h
    simpa [slugs] using exists_find?_of_resolve hs
  | call name args p ih =>
    obtain ⟨hname, -, -, hargs⟩ := isCanonical_call_iff.mp hf
    cases hfunction : Function.ofName? name with
    | none => simp [value, hfunction] at h
    | some f =>
      by_cases hlength : args.length = f.arity
      · obtain rfl := name_eq_of_ofName? hname hfunction
        obtain ⟨values, x, hvalues, hx, -⟩ := value_call_eq_ok hfunction hlength h
        intro slug hslug
        rw [slugs, argSlugs_eq hlength hvalues, List.mem_append, List.mem_flatMap] at hslug
        rcases hslug with hslug | ⟨arg, harg, hslug⟩
        · obtain ⟨position, s, hs⟩ := Function.exists_find_of_apply_eq_ok hx slug hslug
          exact exists_find?_of_resolve hs
        · rcases value_of_arguments_eq_ok hlength hvalues arg harg with hnil | ⟨w, hw⟩
          · simp [hnil] at hslug
          · exact ih arg harg (hargs arg harg) hw slug hslug
      · simp [value, hfunction, hlength] at h
  | hole => simp [slugs]

/-- A formula whose indicators all have series asks for no other. -/
theorem code_ne_of_value {f : Formula} {e : CalcError} (hf : f.isCanonical = true)
    (hmissing : ∀ slug, ¬Missing observed f slug)
    (h : f.value observed = .error (.reported e)) : e.code ≠ .unknownIndicator := by
  have hagrees := shape_agrees hf observed
  rw [h] at hagrees
  generalize f.shape = checked at hagrees
  cases hagrees with
  | refused early => exact Cause.code_ne_of_isMiscall early
  | late hlate => exact Cause.IsLate.code_ne hlate hmissing

variable {fetched : Table String (List (Observation Float))} {context : Context}

/-- If all dependencies were fetched then no indicator is unknown. -/
theorem code_ne_of_evaluate {f : Formula} {e : CalcError} (hf : f.isCanonical = true)
    (hkeys : ∀ slug ∈ f.dependencies, (fetched.find? slug).isSome = true)
    (h : f.evaluate fetched context = .error (.reported e)) : e.code ≠ .unknownIndicator := by
  obtain ⟨observed, hobserved, hvalue⟩ := exists_value_of_evaluate h
  exact code_ne_of_value hf (not_missing_of_fetched hobserved hkeys) hvalue

/-- If a dependency was not fetched then the evaluation fails. -/
theorem exists_evaluate_eq_error_of_missing {f : Formula} {slug : String}
    (hf : f.isCanonical = true) (hslug : slug ∈ f.dependencies)
    (hnone : fetched.find? slug = none) : ∃ fault, f.evaluate fetched context = .error fault := by
  cases hobserved : observe context fetched with
  | error fault => exact ⟨fault, (evaluate_eq_observation hobserved).1⟩
  | ok observed =>
    rw [evaluate_eq_value hobserved]
    cases hv : f.value observed with
    | error fault => exact ⟨fault, rfl⟩
    | ok v =>
      exact absurd ((find?_observe_eq_none_iff hobserved slug).mpr hnone)
        (find?_ne_none_of_value hf hv slug (Slugs.mem_ofList.mp hslug))

/-- The collected slugs of whatever was read are exact. Data that agree on them give one
outcome; if something was fetched for each of them then no indicator is unknown; and if
nothing was fetched for one of them then there is no value. -/
theorem evaluate_depends_on_dependencies {text : String} {f : Formula}
    (hread : read text = .ok f) :
    (∀ fetched fetched' context observed observed',
      observe context fetched = .ok observed →
      observe context fetched' = .ok observed' →
      (∀ slug ∈ f.dependencies, fetched.find? slug = fetched'.find? slug) →
        f.evaluate fetched context = f.evaluate fetched' context) ∧
    (∀ fetched context, (∀ slug ∈ f.dependencies, (fetched.find? slug).isSome = true) →
      ∀ e, f.evaluate fetched context = .error (.reported e) → e.code ≠ .unknownIndicator) ∧
    ∀ fetched context, ∀ slug ∈ f.dependencies, fetched.find? slug = none →
      ∃ fault, f.evaluate fetched context = .error fault := by
  have hf := isCanonical_of_read hread
  refine ⟨?_, ?_, ?_⟩
  · intro fetched fetched' context observed observed' hobserved hobserved' h
    rw [evaluate_eq_value hobserved, evaluate_eq_value hobserved']
    apply value_congr hf
    intro slug hslug
    rw [find?_observe hobserved, find?_observe hobserved', h slug (Slugs.mem_ofList.mpr hslug)]
  · intro fetched context hkeys e he
    exact code_ne_of_evaluate hf hkeys he
  · intro fetched context slug hslug hnone
    exact exists_evaluate_eq_error_of_missing hf hslug hnone

/-- What was fetched for an indicator that crosses one, and for another. -/
def crossing (other : Float) : Table String (List (Observation Float)) :=
  [("b", [⟨.ofDate ⟨1⟩, some other⟩]),
    ("a", [⟨.ofDate ⟨1⟩, some 0.5⟩, ⟨.ofDate ⟨2⟩, some 2.0⟩])]

/-- The series of what was fetched. -/
def crossingSeries (other : Float) : Observed :=
  [("b", [(⟨1⟩, other)]), ("a", [(⟨1⟩, 0.5), (⟨2⟩, 2.0)])]

/-- A signal does not depend on an indicator that its text does not name. -/
theorem evaluate_depends_on_dependencies_signal :
    ∃ f, read "BOOLEAN_SIGNAL(a > 1)" = .ok f ∧ f.dependencies = ["a"] ∧
      observe {} (crossing 3.0) = .ok (crossingSeries 3.0) ∧
      observe {} (crossing 0.25) = .ok (crossingSeries 0.25) ∧
      f.evaluate (crossing 3.0) {} = f.evaluate (crossing 0.25) {} := by
  have hread : read "BOOLEAN_SIGNAL(a > 1)" = .ok (call "BOOLEAN_SIGNAL" [literal "a > 1" 15] 0) :=
    by rfl
  have hthree : observe {} (crossing 3.0) = .ok (crossingSeries 3.0) := by rfl
  have hquarter : observe {} (crossing 0.25) = .ok (crossingSeries 0.25) := by rfl
  have hsame (other : Float) : (crossing other).find? "a" =
      some [⟨.ofDate ⟨1⟩, some 0.5⟩, ⟨.ofDate ⟨2⟩, some 2.0⟩] := rfl
  refine ⟨_, hread, by rfl, hthree, hquarter, ?_⟩
  refine (evaluate_depends_on_dependencies hread).1 _ _ {} _ _ hthree hquarter fun slug hslug => ?_
  obtain rfl : slug = "a" := List.mem_singleton.mp hslug
  exact (hsame 3.0).trans (hsame 0.25).symm

end IndicatorFormula.Formula
