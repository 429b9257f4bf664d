import IndicatorFormula.Formula.Dependencies
import IndicatorFormula.Function.Apply
import IndicatorFormula.Proofs.Except

/-!
# What a function makes of places

A function is told where its arguments began, and tells it again of an argument that it
refuses. Apart from that the places play no role: arguments of the same values give the same
result, or errors that are the same but for the places of which they tell.
-/

namespace IndicatorFormula

open IndicatorFormula.Except

/-- The cause without the place at which a text cannot be read. -/
def Cause.unplaced : Cause → Cause
  | unreadable e => unreadable { e with position := 0 }
  | c => c

/-- The error with every place that it tells of at the beginning of the text. -/
def CalcError.unplaced (e : CalcError) : CalcError :=
  { e with cause := e.cause.unplaced, position := e.position.map fun _ => 0 }

/-- The fault with every place that it tells of at the beginning of the text. -/
def Fault.unplaced : Fault → Fault
  | reported e => reported e.unplaced
  | fault => fault

/-- Two faults are the same but for places. -/
def Fault.IsSame (fault fault' : Fault) : Prop := fault.unplaced = fault'.unplaced

/-- Two problems of reading are the same, wherever they were found. -/
def ReadError.IsSame (e e' : ReadError) : Prop := e.problem = e'.problem

/-- Only causes of reading hold places. -/
theorem Cause.eq_or_unreadable {c c' : Cause} (h : c.unplaced = c'.unplaced) :
    c = c' ∨ ∃ e e' : ReadError, c = unreadable e ∧ c' = unreadable e' ∧ e.IsSame e' := by
  cases c with
  | unreadable e =>
    cases c' with
    | unreadable e' =>
      have hproblem := congrArg ReadError.problem (Cause.unreadable.inj h)
      exact .inr ⟨e, e', rfl, rfl, hproblem⟩
    | _ => cases h
  | _ =>
    cases c' with
    | unreadable e' => cases h
    | _ => exact .inl h

/-- Only errors that are told hold places. -/
theorem Fault.IsSame.eq_or_reported {fault fault' : Fault} (h : fault.IsSame fault') :
    fault = fault' ∨
      ∃ e e', fault = reported e ∧ fault' = reported e' ∧ e.unplaced = e'.unplaced := by
  cases fault with
  | reported e =>
    cases fault' with
    | reported e' => exact .inr ⟨e, e', rfl, rfl, Fault.reported.inj h⟩
    | _ => cases h
  | _ =>
    cases fault' with
    | reported e' => cases h
    | _ => exact .inl h

/-- Errors of reading that are the same are the same as faults. -/
theorem Fault.isSame_ofRead {e e' : ReadError} (h : e.IsSame e') :
    (Fault.reported (.ofRead e)).IsSame (.reported (.ofRead e')) := by
  obtain ⟨problem, p⟩ := e
  obtain ⟨problem', p'⟩ := e'
  cases h
  rfl

/-- An error that is told of a call is the same but for places if it was. -/
theorem CalcError.unplaced_within {e e' : CalcError} (h : e.unplaced = e'.unplaced)
    (f : Function) (p p' : Nat) : (e.within f p).unplaced = (e'.within f p').unplaced := by
  obtain ⟨cause, position, index, function⟩ := e
  obtain ⟨cause', position', index', function'⟩ := e'
  simp only [unplaced, CalcError.mk.injEq] at h
  obtain ⟨hcause, hposition, rfl, rfl⟩ := h
  simp only [within, unplaced, hcause]
  cases position <;> cases position' <;> simp at hposition ⊢

open Formula

/-- Pairs are read alike from any two places. -/
theorem Constituent.readPairs_parallel (seen : List String) (p q : Nat)
    (pieces : List (List Char)) :
    Parallel ReadError.IsSame Eq (readPairs seen p pieces) (readPairs seen q pieces) := by
  induction pieces generalizing seen p q with
  | nil => exact .ok rfl
  | cons piece more ih =>
    rw [readPairs, readPairs]
    split
    · exact .error rfl
    · split
      · exact .error rfl
      · exact (ih _ _ _).map fun _ _ h => congrArg _ h

/-- Where a text of weights begins matters only to the place of what is wrong with it. -/
theorem Constituent.readAll_parallel (text : String) (p q : Nat) :
    Parallel ReadError.IsSame Eq (readAll text p) (readAll text q) :=
  readPairs_parallel [] p q _

/-- Where a condition begins matters only to the place of what is wrong with it. -/
theorem Condition.read_parallel (text : String) (p q : Nat) :
    Parallel ReadError.IsSame Eq (read text p) (read text q) := by
  unfold read
  split
  · exact .ok rfl
  · exact .error rfl

/-- The slugs in a text do not depend on where it begins. -/
theorem Formula.textSlugs_congr (function content : String) (p q : Nat) :
    textSlugs function content p = textSlugs function content q := by
  have hweights := Constituent.readAll_parallel content p q
  have hcondition := Condition.read_parallel content p q
  unfold textSlugs
  split
  · generalize Constituent.readAll content p = x at hweights
    generalize Constituent.readAll content q = y at hweights
    cases hweights with
    | ok fit => rw [fit]
    | error fit => rfl
  · split
    · generalize Condition.read content p = x at hcondition
      generalize Condition.read content q = y at hcondition
      cases hcondition with
      | ok fit => rw [fit]
      | error fit => rfl
    · rfl

/-- Two rows of arguments have the same values, wherever their formulas began. -/
def Arguments.IsSame : (ks : List Slot) → Arguments ks → Arguments ks → Prop
  | [], _, _ => True
  | _ :: ks, values, values' =>
    values.1.value = values'.1.value ∧ IsSame ks values.2 values'.2

/-- What is found for an indicator does not depend on where it is named. -/
def CallSite.IsUnplaced (site : CallSite) : Prop :=
  ∀ slug p q, Parallel Fault.IsSame Eq (site.find slug p) (site.find slug q)

namespace Function

variable {site : CallSite}

/-- A whole number is recognised alike from any two places. -/
theorem wholeArgument_parallel {name : String} {index minimum : Nat} {x y : Placed Float}
    (h : x.value = y.value) :
    Parallel Fault.IsSame Eq (wholeArgument name index minimum x)
      (wholeArgument name index minimum y) := by
  simp only [wholeArgument, h]
  split
  · split
    · exact .ok rfl
    · exact .error rfl
  · exact .error rfl

/-- An index fails and succeeds alike if its lookups do. -/
theorem index_parallel {fault fault' : DataError → Fault}
    {find find' : String → Except Fault (Series Float)} {terms : List (Constituent Float)}
    (hfault : ∀ e, (fault e).IsSame (fault' e))
    (hfind : ∀ slug, Parallel Fault.IsSame Eq (find slug) (find' slug)) :
    Parallel Fault.IsSame Eq (Constituent.index fault find terms)
      (Constituent.index fault' find' terms) := by
  unfold Constituent.index
  split
  · exact .error (hfault _)
  · have hfamily : Parallel Fault.IsSame Eq
        (terms.mapM fun t => do return (t.slug, ← find t.slug))
        (terms.mapM fun t => do return (t.slug, ← find' t.slug)) :=
      parallel_mapM fun t _ => (hfind t.slug).bind fun _ _ h => .ok (congrArg _ h)
    refine hfamily.bind fun family family' hsame => ?_
    obtain rfl := hsame
    have hframe : Parallel Fault.IsSame Eq ((Family.align family).mapError fault)
        ((Family.align family).mapError fault') :=
      (parallel_self _).mapError fun e e' h => h ▸ hfault e
    refine hframe.bind fun frame frame' hsame => ?_
    obtain rfl := hsame
    split
    · exact .error (hfault _)
    · exact .ok rfl

/-- A weighted index does not depend on where its text stands. -/
theorem applyWeights_parallel {text text' : Placed String} (hsite : site.IsUnplaced)
    (h : text.value = text'.value) :
    Parallel Fault.IsSame Eq (applyWeights site text) (applyWeights site text') := by
  unfold applyWeights
  rw [h]
  refine ((Constituent.readAll_parallel _ _ _).mapError
    fun _ _ => Fault.isSame_ofRead).bind fun terms terms' hsame => ?_
  obtain rfl := hsame
  have hindex : Parallel Fault.IsSame Eq
      (Constituent.index (fun e => .reported { cause := .data e, position := some text.position })
        (site.find · text.position) terms)
      (Constituent.index (fun e => .reported { cause := .data e, position := some text'.position })
        (site.find · text'.position) terms) :=
    index_parallel (fun _ => rfl) fun slug => hsite slug _ _
  exact hindex.bind fun s s' hsame => .ok (congrArg _ hsame)

/-- A signal does not depend on where its text stands. -/
theorem applyCondition_parallel {text text' : Placed String} (hsite : site.IsUnplaced)
    (h : text.value = text'.value) :
    Parallel Fault.IsSame Eq (applyCondition site text) (applyCondition site text') := by
  unfold applyCondition
  rw [h]
  refine ((Condition.read_parallel _ _ _).mapError
    fun _ _ => Fault.isSame_ofRead).bind fun condition condition' hsame => ?_
  obtain rfl := hsame
  refine (hsite _ _ _).bind fun s s' hsame => ?_
  obtain rfl := hsame
  exact .ok rfl

/-- A function gives of the same values the same result or errors that are the same but for
places. -/
theorem apply_parallel {f : Function} {values values' : Arguments f.slots}
    (hsite : site.IsUnplaced) (h : Arguments.IsSame f.slots values values') :
    Parallel Fault.IsSame Eq (f.apply site values) (f.apply site values') := by
  have hself {β : Type} (x : Except Fault β) : Parallel Fault.IsSame Eq x x :=
    (parallel_self x).mono (fun _ _ hsame => hsame ▸ rfl) fun _ _ => id
  cases f with
  | sum | avg | min | max | count | linearRegressionSlope | rSquared | maxDrawdown
  | seasonalAdjustment =>
    obtain ⟨⟨s, p⟩, _⟩ := values
    obtain ⟨⟨s', p'⟩, _⟩ := values'
    obtain rfl : s = s' := h.1
    exact hself _
  | sharpeRatio | sortinoRatio =>
    obtain ⟨⟨s, p⟩, ⟨x, q⟩, _⟩ := values
    obtain ⟨⟨s', p'⟩, ⟨x', q'⟩, _⟩ := values'
    obtain rfl : s = s' := h.1
    obtain rfl : x = x' := h.2.1
    exact hself _
  | roc | momentum | stochasticOscillator =>
    obtain ⟨⟨s, p⟩, n, _⟩ := values
    obtain ⟨⟨s', p'⟩, n', _⟩ := values'
    obtain rfl : s = s' := h.1
    exact (wholeArgument_parallel h.2.1).bind fun _ _ hsame => hsame ▸ hself _
  | rollingCorrelation =>
    obtain ⟨⟨s, p⟩, ⟨t, q⟩, n, _⟩ := values
    obtain ⟨⟨s', p'⟩, ⟨t', q'⟩, n', _⟩ := values'
    obtain rfl : s = s' := h.1
    obtain rfl : t = t' := h.2.1
    exact (wholeArgument_parallel h.2.2.1).bind fun _ _ hsame => hsame ▸ hself _
  | weightedIndex => exact applyWeights_parallel hsite h.1
  | booleanSignal => exact applyCondition_parallel hsite h.1

end Function

end IndicatorFormula
