import IndicatorFormula.Formula.Evaluate
import IndicatorFormula.Proofs.Formula.Canonical
import IndicatorFormula.Proofs.Formula.Places
import IndicatorFormula.Proofs.Function.Call

/-!
# What an evaluation looks at

A call that was read has its name in capitals, so that its function is called by its own
name; and the slugs in the arguments of a call are those that its function looks up and
those of the arguments that are formulas themselves.
-/

namespace IndicatorFormula.Formula

open Text

private theorem mapM_asciiUpper? {cs : List Char}
    (h : ∀ c ∈ cs, isWordChar c = true ∧ c.toUpper = c) :
    cs.mapM asciiUpper? = some (cs.map fun c => [c]) := by
  induction cs with
  | nil => rfl
  | cons c cs ih =>
    obtain ⟨⟨hword, hupper⟩, hcs⟩ := List.forall_mem_cons.mp h
    have hascii : c.toNat < 0x80 := toNat_lt_of_isWordChar hword
    simp [asciiUpper?, hascii, hupper, ih hcs]

/-- A name in capitals is the own name of the function that it names. -/
theorem name_eq_of_ofName? {name : String} {f : Function}
    (hname : isCapitalName name.toList = true) (h : Function.ofName? name = some f) :
    name = f.name := by
  obtain ⟨-, hcapitals, hword⟩ := isCapitalName_spec hname
  have hupper : ∀ c ∈ name.toList, c.toUpper = c := by
    have hmap : name.toList.map Char.toUpper = name.toList.map id := by
      simpa [capitals] using congrArg String.toList hcapitals
    simpa using List.map_inj_left.mp hmap
  have hascii : asciiCapitals? name = some name := by
    rw [asciiCapitals?, mapM_asciiUpper? fun c hc => ⟨hword c hc, hupper c hc⟩, Option.map_some,
      ← List.flatMap_def, List.flatMap_singleton', String.ofList_toList]
  rw [Function.ofName?, hascii, Option.bind_some] at h
  have hfound := List.find?_some h
  exact (of_decide_eq_true hfound).symm

/-- A call of a known function with the right count applies it to its arguments. -/
theorem value_call {observed : Observed} {name : String} {f : Function} {args : List Formula}
    {position : Nat} (hfunction : Function.ofName? name = some f)
    (hlength : args.length = f.arity) :
    value observed (call name args position) =
      (arguments observed f position 0 f.slots args >>= fun values =>
        (told f position (f.apply ⟨name, resolve observed⟩ values)).map
          (Value.of f.returns)) := by
  simp only [value, hfunction, hlength, ne_eq, not_true_eq_false, if_false]
  cases arguments observed f position 0 f.slots args <;> rfl

/-- Arguments are evaluated one by one. -/
theorem arguments_cons {observed : Observed} {f : Function} {position index : Nat} {slot : Slot}
    {slots : List Slot} {arg : Formula} {args : List Formula} :
    arguments observed f position index (slot :: slots) (arg :: args) =
      (argument f index slot arg (value observed arg) >>= fun first =>
        (arguments observed f position (index + 1) slots args).map (first, ·)) := by
  rw [arguments]
  cases argument f index slot arg (value observed arg) <;> rfl

/-- An argument that is not a text is evaluated for a place that takes none. -/
theorem argument_eq {f : Function} {index : Nat} {slot : Slot} {arg : Formula}
    (hslot : slot ≠ .text) (harg : ∀ content p, arg ≠ literal content p)
    (outcome : Except Fault Value) :
    argument f index slot arg outcome =
      outcome >>= valueArgument f index (arg.position?.getD 0) slot := by
  cases slot with
  | text => exact absurd rfl hslot
  | series | scalar =>
    cases arg with
    | literal content p => exact absurd rfl (harg content p)
    | _ => cases outcome <;> rfl

/-- What is told of a call does not change a value. -/
theorem told_eq_ok {β : Type} {f : Function} {position : Nat} {r : Except Fault β} {x : β} :
    told f position r = .ok x ↔ r = .ok x := by
  cases r with
  | ok y => simp [told]
  | error fault => cases fault <;> simp [told]

/-- An error that is told of a call is late if it was. -/
theorem isLate_of_told {β : Type} {missing : String → Prop} {f : Function} {position : Nat}
    {r : Except Fault β} {fault : Fault} (h : told f position r = .error fault)
    (hlate : ∀ fault, r = .error fault → fault.IsLate missing) : fault.IsLate missing := by
  cases r with
  | ok x => cases h
  | error fault' =>
    have hlate' := hlate fault' rfl
    cases fault' with
    | reported e =>
      cases h
      exact hlate'
    | _ =>
      cases h
      exact hlate'

/-- A call that has a value has arguments of which its function made that value. -/
theorem value_call_eq_ok {observed : Observed} {name : String} {f : Function}
    {args : List Formula} {position : Nat} {v : Value}
    (hfunction : Function.ofName? name = some f) (hlength : args.length = f.arity)
    (h : value observed (call name args position) = .ok v) :
    ∃ values x, arguments observed f position 0 f.slots args = .ok values ∧
      f.apply ⟨name, resolve observed⟩ values = .ok x ∧ v = Value.of f.returns x := by
  rw [value_call hfunction hlength] at h
  obtain ⟨values, hvalues, h⟩ := Except.bind_eq_ok.mp h
  obtain ⟨x, hx, rfl⟩ := Except.map_eq_ok.mp h
  exact ⟨values, x, hvalues, told_eq_ok.mp hx, rfl⟩

/-- Where texts name no slugs the slugs of arguments are those of the formulas. -/
theorem argSlugs_eq_flatMap {name : String} (h : ∀ content p, textSlugs name content p = [])
    (args : List Formula) : argSlugs name args = args.flatMap slugs := by
  induction args with
  | nil => rfl
  | cons f args ih =>
    cases f with
    | literal content p => simp [argSlugs, slugs, h, ih]
    | _ => simp [argSlugs, ih]

/-- The slugs of an argument are among those of all. -/
theorem mem_argSlugs {name slug : String} {arg : Formula} {args : List Formula} (h : arg ∈ args)
    (hslug : slug ∈ slugs arg) : slug ∈ argSlugs name args := by
  induction args with
  | nil => simp at h
  | cons f args ih =>
    have hothers : slug ∈ argSlugs name args → slug ∈ argSlugs name (f :: args) := fun hs => by
      cases f <;> simp [argSlugs, hs]
    rcases List.mem_cons.mp h with rfl | h
    · cases arg with
      | literal content p => simp [slugs] at hslug
      | _ => simp [argSlugs, hslug]
    · exact hothers (ih h)

/-- Every slug in the arguments of a call is one that its function looks up or one of an
argument. -/
theorem argSlugs_eq {observed : Observed} {f : Function} {position : Nat} {args : List Formula}
    {values : Arguments f.slots} (hlength : args.length = f.arity)
    (h : arguments observed f position 0 f.slots args = .ok values) :
    argSlugs f.name args = f.named values ++ args.flatMap slugs := by
  -- A function that reads a text has no other argument; the others look nothing up.
  have htext {name : String} {values : Arguments [.text]} (hlength : args.length = 1)
      (h : arguments observed f position 0 [.text] args = .ok values) :
      argSlugs name args =
        textSlugs name values.1.value values.1.position ++ args.flatMap slugs := by
    obtain ⟨arg, rfl⟩ := List.length_eq_one_iff.mp hlength
    cases arg <;> simp only [arguments, argument, textArgument] at h
    case literal content p =>
      cases h
      simp [argSlugs, slugs]
    all_goals cases h
  cases f with
  | weightedIndex => exact htext hlength h
  | booleanSignal => exact htext hlength h
  | _ => exact argSlugs_eq_flatMap (fun content p => rfl) args

/-- Indicators are observed one by one. -/
theorem observe_cons_eq_ok {context : Context} {slug : String}
    {observations : List (Observation Float)}
    {fetched : Table String (List (Observation Float))} {observed : Observed} :
    observe context ((slug, observations) :: fetched) = .ok observed ↔
      ∃ s others, Series.ofObservations context observations = .ok s ∧
        observe context fetched = .ok others ∧ observed = (slug, s) :: others := by
  rw [observe, List.mapM_cons]
  simp only [Except.bind_eq_ok, Except.map_eq_ok, Except.mapError_eq_ok]
  constructor
  · rintro ⟨_, ⟨s, hs, rfl⟩, others, hothers, h⟩
    cases h
    exact ⟨s, others, hs, hothers, rfl⟩
  · rintro ⟨s, others, hs, hothers, rfl⟩
    exact ⟨_, ⟨s, hs, rfl⟩, others, hothers, rfl⟩

/-- The series of an indicator come from what was fetched for it, and from nothing else. -/
theorem find?_observe {context : Context} {fetched : Table String (List (Observation Float))}
    {observed : Observed} (h : observe context fetched = .ok observed) (slug : String) :
    observed.find? slug = (fetched.find? slug).bind fun observations =>
      (Series.ofObservations context observations).toOption := by
  induction fetched generalizing observed with
  | nil =>
    cases h
    rfl
  | cons entry fetched ih =>
    obtain ⟨s, others, hs, hothers, rfl⟩ := observe_cons_eq_ok.mp h
    by_cases hkey : entry.1 = slug
    · simp [Table.find?, hkey, hs, Except.toOption]
    · simp [Table.find?, hkey, ih hothers]

/-- The indicators for which something was fetched are those that have a series. -/
theorem find?_observe_eq_none_iff {context : Context}
    {fetched : Table String (List (Observation Float))} {observed : Observed}
    (h : observe context fetched = .ok observed) (slug : String) :
    observed.find? slug = none ↔ fetched.find? slug = none := by
  induction fetched generalizing observed with
  | nil =>
    cases h
    simp [Table.find?]
  | cons entry fetched ih =>
    obtain ⟨s, others, -, hothers, rfl⟩ := observe_cons_eq_ok.mp h
    by_cases hkey : entry.1 = slug
    · simp [Table.find?, hkey]
    · simp [Table.find?, hkey, ih hothers]

section Evaluate

variable {f : Formula} {fetched : Table String (List (Observation Float))} {context : Context}
  {observed : Observed}

theorem evaluate_eq_value (h : observe context fetched = .ok observed) :
    f.evaluate fetched context = f.value observed := by
  simp [evaluate, h, bind, Except.bind]

/-- Where the observations make no series the evaluation fails for that reason. -/
theorem evaluate_eq_observation {fault : Fault}
    (h : observe context fetched = .error fault) :
    f.evaluate fetched context = .error fault ∧ ∃ o, fault = .observation o := by
  refine ⟨by simp [evaluate, h, bind, Except.bind], ?_⟩
  obtain ⟨entry, -, hentry⟩ := Except.error_of_mapM_eq_error h
  obtain ⟨o, -, rfl⟩ := Except.mapError_eq_error.mp (Except.map_eq_error.mp hentry)
  exact ⟨o, rfl⟩

/-- An indicator has the series of its observations. -/
theorem evaluate_indicator {slug : String} {p : Nat} {os : List (Observation Float)}
    {s : Series Float} (h : Series.ofObservations context os = .ok s) :
    evaluate (indicator slug p) [(slug, os)] context = .ok (.series s) := by
  have hobserved : observe context [(slug, os)] = .ok [(slug, s)] :=
    observe_cons_eq_ok.mpr ⟨s, [], h, rfl, rfl⟩
  rw [evaluate_eq_value hobserved]
  simp [value, resolve, Table.find?, Except.map]

/-- An error that is told is one of the value, as the observations have made series. -/
theorem exists_value_of_evaluate {e : CalcError}
    (h : f.evaluate fetched context = .error (.reported e)) :
    ∃ observed, observe context fetched = .ok observed ∧
      f.value observed = .error (.reported e) := by
  cases hobserved : observe context fetched with
  | error fault =>
    obtain ⟨hevaluate, o, rfl⟩ := evaluate_eq_observation (f := f) hobserved
    simp [hevaluate] at h
  | ok observed => exact ⟨observed, rfl, evaluate_eq_value hobserved ▸ h⟩

end Evaluate

end IndicatorFormula.Formula
