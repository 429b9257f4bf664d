import IndicatorFormula.Proofs.Evaluation.Agreement
import IndicatorFormula.Proofs.Function.Places
import IndicatorFormula.Proofs.Formula.RoundTrip

/-!
# What an evaluation makes of places

Where the parts of a formula stand decides neither whether it has a value nor which one, and of
an error it decides no more than the place that is told. The two formulas that are compared are
equal without their places, and the induction is over one of them. So a formula and its
canonical form have the same dependencies, are checked with the same verdict and are evaluated
to the same outcome.
-/

namespace IndicatorFormula

open IndicatorFormula.Except

/-- The indicators of which a cause tells. -/
def Cause.missing : Cause → List String
  | unknownIndicators slugs => slugs
  | _ => []

/-- Two errors tell the same, but for the places at which they arose. -/
structure CalcError.TellsSame (e e' : CalcError) : Prop where
  /-- They have one code. -/
  code : e.code = e'.code
  /-- The same indicators are missing. -/
  missing : e.cause.missing = e'.cause.missing
  /-- The same argument is at fault. -/
  argumentIndex : e.argumentIndex = e'.argumentIndex
  /-- The same function failed. -/
  function : e.function = e'.function
  /-- Both are placed or neither is. -/
  placed : e.position.isSome = e'.position.isSome
  /-- They are worded alike; only the words of an error of reading end in its place. -/
  message : e.message = e'.message ∨ e.code = .parse ∧ ∃ reason p p',
    e.message = placedMessage reason p ∧ e'.message = placedMessage reason p'

/-- Two faults are the same, but for the places of an error that is told. -/
def Fault.TellsSame : Fault → Fault → Prop
  | reported e, reported e' => e.TellsSame e'
  | fault, fault' => fault = fault'

/-- Two verdicts say the same, but for the places of an error. -/
structure Verdict.TellsSame (v v' : Verdict) : Prop where
  /-- Both formulas are in order or neither is. -/
  valid : v.valid = v'.valid
  /-- They depend on the same indicators. -/
  dependencies : v.dependencies = v'.dependencies
  /-- The same indicators are not there. -/
  unknownIndicators : v.unknownIndicators = v'.unknownIndicators
  /-- The same is wrong with them. -/
  error : Option.Rel CalcError.TellsSame v.error v'.error

/-- Errors that are the same but for their places tell the same. -/
theorem CalcError.tellsSame_of_unplaced_eq {e e' : CalcError} (h : e.unplaced = e'.unplaced) :
    e.TellsSame e' := by
  obtain ⟨cause, position, index, function⟩ := e
  obtain ⟨cause', position', index', function'⟩ := e'
  simp only [unplaced, CalcError.mk.injEq] at h
  obtain ⟨hcause, hposition, rfl, rfl⟩ := h
  have hplaced : position.isSome = position'.isSome := by
    simpa using congrArg Option.isSome hposition
  rcases Cause.eq_or_unreadable hcause with rfl | ⟨r, r', rfl, rfl, hsame⟩
  · exact ⟨rfl, rfl, rfl, rfl, hplaced, .inl rfl⟩
  · refine ⟨rfl, rfl, rfl, rfl, hplaced, .inr ⟨rfl, r.problem.reason, r.position, r'.position,
      rfl, ?_⟩⟩
    rw [show r.problem = r'.problem from hsame]
    rfl

theorem CalcError.tellsSame_self (e : CalcError) : e.TellsSame e := tellsSame_of_unplaced_eq rfl

/-- Faults that are the same but for their places tell the same. -/
theorem Fault.IsSame.tellsSame {fault fault' : Fault} (h : fault.IsSame fault') :
    fault.TellsSame fault' := by
  rcases h.eq_or_reported with rfl | ⟨e, e', rfl, rfl, hsame⟩
  · cases fault with
    | reported e => exact e.tellsSame_self
    | _ => rfl
  · exact CalcError.tellsSame_of_unplaced_eq hsame

namespace Formula

variable {observed : Observed} {f : Function}

/-- A look-up does not depend on the place. -/
theorem resolve_isUnplaced (observed : Observed) (name : String) :
    CallSite.IsUnplaced ⟨name, resolve observed⟩ := by
  intro slug p q
  simp only [resolve]
  split
  · exact .ok rfl
  · exact .error rfl

/-- Formulas that are equal without places are both quoted texts or neither is. -/
theorem ne_literal_of_unplaced_eq {arg arg' : Formula} (h : arg.unplaced = arg'.unplaced)
    (harg : ∀ content p, arg ≠ literal content p) (content : String) (p : Nat) :
    arg' ≠ literal content p := by
  rintro rfl
  cases arg <;> simp only [unplaced, reduceCtorEq] at h
  exact harg _ _ rfl

/-- A text is taken or refused wherever it stands. -/
theorem textArgument_parallel {index : Nat} {arg arg' : Formula}
    (h : arg.unplaced = arg'.unplaced) :
    Parallel Fault.IsSame (fun x y => x.value = y.value) (textArgument f index arg)
      (textArgument f index arg') := by
  cases arg <;> cases arg' <;> simp only [unplaced, reduceCtorEq, Formula.literal.injEq,
    and_true] at h
  case literal.literal => exact .ok h
  all_goals exact .error rfl

/-- A value is taken or refused wherever it stands. -/
theorem valueArgument_parallel {index p q : Nat} {k : Slot} {v : Value} :
    Parallel Fault.IsSame (fun x y => x.value = y.value) (valueArgument f index p k v)
      (valueArgument f index q k v) := by
  cases k <;> cases v
  case series.series | scalar.scalar => exact .ok rfl
  all_goals exact .error rfl

/-- An argument is taken or refused wherever it stands. -/
theorem argument_parallel {index : Nat} {k : Slot} {arg arg' : Formula}
    {outcome outcome' : Except Fault Value} (h : arg.unplaced = arg'.unplaced)
    (houtcome : Parallel Fault.IsSame Eq outcome outcome') :
    Parallel Fault.IsSame (fun x y => x.value = y.value) (argument f index k arg outcome)
      (argument f index k arg' outcome') := by
  by_cases hk : k = .text
  · subst hk
    exact textArgument_parallel h
  · by_cases harg : ∀ content p, arg ≠ literal content p
    · rw [argument_eq hk harg, argument_eq hk (ne_literal_of_unplaced_eq h harg)]
      refine houtcome.bind fun v v' hsame => ?_
      obtain rfl := hsame
      exact valueArgument_parallel
    · simp only [ne_eq, not_forall, not_not] at harg
      obtain ⟨content, p, rfl⟩ := harg
      cases arg' <;> simp only [unplaced, reduceCtorEq] at h
      cases k with
      | text => exact absurd rfl hk
      | series | scalar => exact .error rfl

/-- Two formulas are equal without places and end alike. -/
def EndsAlike (observed : Observed) (arg arg' : Formula) : Prop :=
  arg.unplaced = arg'.unplaced ∧
    Parallel Fault.IsSame Eq (arg.value observed) (arg'.value observed)

/-- Arguments that end alike are converted alike, from any two places. -/
theorem arguments_parallel {p q index : Nat} {ks : List Slot} {args args' : List Formula}
    (h : List.Forall₂ (EndsAlike observed) args args') :
    Parallel Fault.IsSame (Arguments.IsSame ks) (arguments observed f p index ks args)
      (arguments observed f q index ks args') := by
  induction ks generalizing index args args' with
  | nil =>
    simp only [arguments]
    exact .ok trivial
  | cons k ks ih =>
    cases h with
    | nil =>
      simp only [arguments]
      exact .error rfl
    | cons hfirst hrest =>
      rw [arguments_cons, arguments_cons]
      refine (argument_parallel hfirst.1 hfirst.2).bind fun x y hxy => ?_
      exact (ih hrest).map fun _ _ hsame => ⟨hxy, hsame⟩

/-- Telling the place of a failure keeps two outcomes parallel. -/
theorem told_parallel {β : Type} {p q : Nat} {r r' : Except Fault β}
    (h : Parallel Fault.IsSame Eq r r') :
    Parallel Fault.IsSame Eq (told f p r) (told f q r') := by
  cases h with
  | ok fit => exact .ok fit
  | @error fault fault' fit =>
    rcases fit.eq_or_reported with rfl | ⟨e, e', rfl, rfl, hsame⟩
    · cases fault with
      | reported e => exact .error (congrArg Fault.reported (CalcError.unplaced_within rfl f p q))
      | _ => exact .error rfl
    · exact .error (congrArg Fault.reported (CalcError.unplaced_within hsame f p q))

/-- Formulas that are equal without places have the same value, or errors that are the same but
for places. -/
theorem value_parallel {f g : Formula} (h : f.unplaced = g.unplaced) :
    Parallel Fault.IsSame Eq (f.value observed) (g.value observed) := by
  induction f using Formula.induction generalizing g with
  | call name args p ih =>
    obtain ⟨args', q, rfl, hargs⟩ := exists_call_of_unplaced_eq h
    have hrow : List.Forall₂ (EndsAlike observed) args args' :=
      forall₂_of_map_unplaced_eq (fun arg harg arg' heq => ⟨heq, ih arg harg heq⟩) hargs
    cases hfunction : Function.ofName? name with
    | none =>
      simp only [value, hfunction]
      exact .error rfl
    | some f =>
      by_cases hlength : args.length = f.arity
      · rw [value_call hfunction hlength, value_call hfunction (hrow.length_eq ▸ hlength)]
        refine (arguments_parallel hrow).bind fun values values' hsame => ?_
        have happly := Function.apply_parallel (resolve_isUnplaced observed name) hsame
        exact (told_parallel happly).map fun _ _ hx => congrArg _ hx
      · have hlength' : args'.length ≠ f.arity := hrow.length_eq ▸ hlength
        simp only [value, hfunction, ne_eq, hlength', not_false_eq_true, if_true, hrow.length_eq]
        exact .error rfl
  | number x p =>
    cases g <;> simp only [unplaced, reduceCtorEq, Formula.number.injEq, and_true] at h
    exact .ok (congrArg Value.scalar h)
  | literal content p =>
    cases g <;> simp only [unplaced, reduceCtorEq] at h
    exact .error rfl
  | indicator slug p =>
    cases g <;> simp only [unplaced, reduceCtorEq, Formula.indicator.injEq, and_true] at h
    subst h
    exact (resolve_isUnplaced observed "" slug p _).map fun _ _ hs => congrArg _ hs
  | hole =>
    cases g <;> simp only [unplaced, reduceCtorEq] at h
    exact .error rfl

/-- Formulas that differ in places only evaluate alike. -/
theorem evaluate_parallel {f g : Formula} (h : f.unplaced = g.unplaced)
    (fetched : Table String (List (Observation Float))) (context : Context) :
    Parallel Fault.TellsSame Eq (f.evaluate fetched context) (g.evaluate fetched context) := by
  have hobserve : Parallel Fault.IsSame Eq (observe context fetched)
      (observe context fetched) :=
    (parallel_self _).mono (fun _ _ hsame => hsame ▸ rfl) fun _ _ => id
  refine Parallel.mono (hobserve.bind fun observed observed' hsame => ?_)
    (fun _ _ => Fault.IsSame.tellsSame) fun _ _ => id
  obtain rfl := hsame
  exact value_parallel h

/-- The slugs of arguments do not depend on the places. -/
theorem argSlugs_congr {name : String} {args args' : List Formula}
    (h : List.Forall₂ (fun arg arg' => arg.unplaced = arg'.unplaced ∧ arg.slugs = arg'.slugs)
      args args') : argSlugs name args = argSlugs name args' := by
  induction h with
  | nil => rfl
  | @cons arg arg' args args' hfirst _ ih =>
    obtain ⟨heq, hslugs⟩ := hfirst
    cases arg <;> cases arg' <;> simp only [unplaced, reduceCtorEq, Formula.literal.injEq,
      and_true] at heq
    case literal.literal =>
      subst heq
      rw [argSlugs, argSlugs, ih, textSlugs_congr]
    all_goals simp only [argSlugs, hslugs, ih]

/-- Formulas that are equal without places name the same slugs. -/
theorem slugs_congr {f g : Formula} (h : f.unplaced = g.unplaced) : f.slugs = g.slugs := by
  induction f using Formula.induction generalizing g with
  | call name args p ih =>
    obtain ⟨args', q, rfl, hargs⟩ := exists_call_of_unplaced_eq h
    rw [slugs, slugs]
    exact argSlugs_congr (forall₂_of_map_unplaced_eq
      (fun arg harg arg' heq => ⟨heq, ih arg harg heq⟩) hargs)
  | indicator slug p =>
    cases g <;> simp only [unplaced, reduceCtorEq, Formula.indicator.injEq, and_true] at h
    rw [slugs, slugs, h]
  | _ =>
    cases g <;> simp only [unplaced, reduceCtorEq] at h
    all_goals rfl

theorem dependencies_congr {f g : Formula} (h : f.unplaced = g.unplaced) :
    f.dependencies = g.dependencies := by
  rw [dependencies, slugs_congr h, dependencies]

/-- Whether a place takes a shape does not depend on where it stands. -/
theorem slotTakes_parallel {index p q : Nat} {k : Slot} {got : Shape} :
    Parallel Fault.IsSame Eq (slotTakes f index p k got) (slotTakes f index q k got) := by
  cases k <;> cases got
  case series.series | scalar.scalar => exact .ok rfl
  all_goals exact .error rfl

/-- The check of one argument does not depend on where it stands. -/
theorem checkArgument_parallel {index : Nat} {k : Slot} {arg arg' : Formula}
    {outcome outcome' : Except Fault Shape} (h : arg.unplaced = arg'.unplaced)
    (houtcome : Parallel Fault.IsSame Eq outcome outcome') :
    Parallel Fault.IsSame Eq (checkArgument f index k arg outcome)
      (checkArgument f index k arg' outcome') := by
  by_cases hk : k = .text
  · subst hk
    exact (textArgument_parallel h).map fun _ _ _ => rfl
  · by_cases harg : ∀ content p, arg ≠ literal content p
    · rw [checkArgument_eq hk harg, checkArgument_eq hk (ne_literal_of_unplaced_eq h harg)]
      refine houtcome.bind fun got got' hsame => ?_
      obtain rfl := hsame
      exact slotTakes_parallel
    · simp only [ne_eq, not_forall, not_not] at harg
      obtain ⟨content, p, rfl⟩ := harg
      cases arg' <;> simp only [unplaced, reduceCtorEq] at h
      cases k with
      | text => exact absurd rfl hk
      | series | scalar => exact .error rfl

/-- Two formulas are equal without places and are checked alike. -/
def ChecksAlike (arg arg' : Formula) : Prop :=
  arg.unplaced = arg'.unplaced ∧ Parallel Fault.IsSame Eq arg.shape arg'.shape

/-- The check of a row of arguments does not depend on where they stand. -/
theorem checkArguments_parallel {index : Nat} {ks : List Slot} {args args' : List Formula}
    (h : List.Forall₂ ChecksAlike args args') :
    Parallel Fault.IsSame Eq (checkArguments f index ks args)
      (checkArguments f index ks args') := by
  induction ks generalizing index args args' with
  | nil =>
    simp only [checkArguments]
    exact .ok rfl
  | cons k ks ih =>
    cases h with
    | nil =>
      simp only [checkArguments]
      exact .ok rfl
    | cons hfirst hrest =>
      rw [checkArguments_cons, checkArguments_cons]
      exact (checkArgument_parallel hfirst.1 hfirst.2).bind fun _ _ _ => ih hrest

/-- Formulas that are equal without places have the same shape, or errors that are the same but
for places. -/
theorem shape_parallel {f g : Formula} (h : f.unplaced = g.unplaced) :
    Parallel Fault.IsSame Eq f.shape g.shape := by
  induction f using Formula.induction generalizing g with
  | call name args p ih =>
    obtain ⟨args', q, rfl, hargs⟩ := exists_call_of_unplaced_eq h
    have hrow : List.Forall₂ ChecksAlike args args' :=
      forall₂_of_map_unplaced_eq (fun arg harg arg' heq => ⟨heq, ih arg harg heq⟩) hargs
    cases hfunction : Function.ofName? name with
    | none =>
      simp only [shape, hfunction]
      exact .error rfl
    | some f =>
      by_cases hlength : args.length = f.arity
      · rw [shape_call hfunction hlength, shape_call hfunction (hrow.length_eq ▸ hlength)]
        exact (checkArguments_parallel hrow).bind fun _ _ _ => .ok rfl
      · have hlength' : args'.length ≠ f.arity := hrow.length_eq ▸ hlength
        simp only [shape, hfunction, ne_eq, hlength', not_false_eq_true, if_true, hrow.length_eq]
        exact .error rfl
  | _ =>
    cases g <;> simp only [unplaced, reduceCtorEq] at h
    all_goals first | exact .ok rfl | exact .error rfl

end Formula

theorem Verdict.tellsSame_self (v : Verdict) : v.TellsSame v := by
  refine ⟨rfl, rfl, rfl, ?_⟩
  cases v.error with
  | none => exact .none
  | some e => exact .some e.tellsSame_self

open Formula

/-- Texts that are read as formulas which are equal without places are checked with the same
calls and the same verdict. -/
theorem Verdict.run_parallel {text text' : String} {f g : Formula} (hf : read text = .ok f)
    (hg : read text' = .ok g) (h : f.unplaced = g.unplaced) (store : Option SeriesStore) :
    (run store text).1 = (run store text').1 ∧
      Parallel Eq TellsSame (run store text).2 (run store text').2 := by
  have hshape := shape_parallel h
  have hdependencies := dependencies_congr h
  simp only [run, examine, hf, hg]
  generalize f.shape = x at hshape
  generalize g.shape = y at hshape
  cases hshape with
  | ok fit =>
    simp only [Except.map, hdependencies]
    exact ⟨trivial,
      (parallel_self _).mono (fun _ _ => id) fun v _ hsame => hsame ▸ v.tellsSame_self⟩
  | @error fault fault' fit =>
    rcases fit.eq_or_reported with rfl | ⟨e, e', rfl, rfl, hsame⟩
    · cases fault with
      | reported e => exact ⟨rfl, .ok (tellsSame_self _)⟩
      | _ => exact ⟨rfl, .error rfl⟩
    · exact ⟨rfl, .ok ⟨rfl, rfl, rfl, .some (CalcError.tellsSame_of_unplaced_eq hsame)⟩⟩

namespace Formula

/-- The canonical form of whatever was read means the same: it is read as a formula with the
same dependencies, which is checked with the same verdict and evaluated to the same outcome,
whatever the data are. In general the outcome of an evaluation depends on the places of the
parts of a formula only in the place that an error tells of. -/
theorem canonical_meansSame :
    (∀ (text : String) (f : Formula), read text = .ok f →
      ∃ form g, f.canonical? = some form ∧ read form = .ok g ∧
        g.dependencies = f.dependencies ∧
        (∀ store, (Verdict.run store form).1 = (Verdict.run store text).1 ∧
          Parallel Eq Verdict.TellsSame (Verdict.run store form).2 (Verdict.run store text).2) ∧
        ∀ fetched context, Parallel Fault.TellsSame Eq (g.evaluate fetched context)
          (f.evaluate fetched context)) ∧
    ∀ f g : Formula, g.unplaced = f.unplaced → ∀ fetched context,
      Parallel Fault.TellsSame Eq (g.evaluate fetched context) (f.evaluate fetched context) := by
  refine ⟨?_, fun f g h fetched context => evaluate_parallel h fetched context⟩
  intro text f hread
  obtain ⟨form, g, hform, hg, heq, -, -⟩ := isReadBack_of_isCanonical (isCanonical_of_read hread)
  exact ⟨form, g, hform, hg, dependencies_congr heq, Verdict.run_parallel hg hread heq,
    evaluate_parallel heq⟩

/-- The same is wrong with weights that cannot be read, at another place of the canonical form. -/
theorem canonical_meansSame_weights :
    let f := call "WEIGHTED_INDEX" [literal "a:x" 17] 0
    let g := call "WEIGHTED_INDEX" [literal "a:x" 16] 0
    read "weighted_index(  a:x )" = .ok f ∧
      (∃ form g, f.canonical? = some form ∧ read form = .ok g ∧ g.dependencies = []) ∧
      g.unplaced = f.unplaced ∧
      ∃ e e', g.evaluate [] {} = .error (.reported e) ∧
        f.evaluate [] {} = .error (.reported e') ∧
        e.position = some 16 ∧ e'.position = some 17 ∧ e.TellsSame e' := by
  intro f g
  have hread : read "weighted_index(  a:x )" = .ok f := by cbv
  obtain ⟨form, g', hform, hg', hdependencies, -, -⟩ := canonical_meansSame.1 _ f hread
  have halike := canonical_meansSame.2 f g rfl [] {}
  let e (p : Nat) : CalcError :=
    { cause := .unreadable ⟨.malformedWeight "a:x", p⟩, position := some p,
      function := some "WEIGHTED_INDEX" }
  have hg : g.evaluate [] {} = .error (.reported (e 16)) := by rfl
  have hf : f.evaluate [] {} = .error (.reported (e 17)) := by rfl
  rw [hg, hf] at halike
  cases halike with
  | error fit =>
    exact ⟨hread, ⟨form, g', hform, hg', hdependencies⟩, rfl, e 16, e 17, hg, hf, rfl, rfl, fit⟩

end Formula

end IndicatorFormula
