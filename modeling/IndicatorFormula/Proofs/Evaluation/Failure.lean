import IndicatorFormula.Proofs.Evaluation.Arguments
import IndicatorFormula.Proofs.Formula.Parts
import IndicatorFormula.Proofs.Series.Failure

/-!
# How an evaluation fails

The evaluation of whatever was read fails with an error that is told to the user. The one way
in which it breaks off is a ratio over shortfalls whose deviation is so small that it vanishes;
then a part of the formula is such a ratio. The induction is over the formula, and what it
carries is that no other fault arises.
-/

namespace IndicatorFormula

open IndicatorFormula.Except

/-- The fault is an error that is told to the user. -/
def Fault.IsTold : Fault → Prop
  | reported _ => True
  | _ => False

/-- The fault is an error of a call that is wrong in itself. -/
def Fault.IsMiscall : Fault → Prop
  | reported e => e.cause.isMiscall = true
  | _ => False

/-- A miscall is told. -/
theorem Fault.IsMiscall.isTold {fault : Fault} (h : fault.IsMiscall) : fault.IsTold := by
  cases fault with
  | reported e => trivial
  | _ => exact h

/-- A function that is called by its own name fails with an error that is told, as a look-up
does, or because it divides by a deviation that vanishes. -/
theorem Function.apply_failsWith {site : CallSite} {allowed : Fault → Prop} {f : Function}
    {values : Arguments f.slots} (hname : site.name = f.name)
    (htold : ∀ fault, fault.IsTold → allowed fault)
    (hbreaks : f.Breaks values → allowed (.breakdown .vanishingShortfall))
    (hfind : ∀ slug ∈ f.named values, ∀ position, FailsWith allowed (site.find slug position)) :
    FailsWith allowed (f.apply site values) := by
  intro fault h
  cases apply_fails fault h with
  | count | data | text => exact htold _ trivial
  | vanishing breaks => exact hbreaks breaks
  | misspelled other => exact absurd hname other
  | lookUp named found => exact hfind _ named _ _ found

namespace Formula

variable {observed : Observed} {allowed : Fault → Prop} {f : Function}

/-- A look-up fails with an error that is told. -/
theorem resolve_failsWith (slug : String) (position : Nat) :
    FailsWith Fault.IsTold (resolve observed slug position) := by
  unfold resolve
  split
  · exact failsWith_ok
  · exact failsWith_error trivial

/-- The fault is that an argument does not fit its place in a call. -/
inductive IsMisfit (f : Function) (arg : Formula) : Fault → Prop
  /-- It is told of the function and placed where the argument stands. -/
  | placed {index p : Nat} {cause : Cause} (place : arg.position? = some p)
    (miscall : cause.isMiscall = true) :
    IsMisfit f arg (.reported (badArgument f index p cause))

/-- A misfit is a miscall. -/
theorem IsMisfit.isMiscall {arg : Formula} {fault : Fault} (h : IsMisfit f arg fault) :
    fault.IsMiscall := by
  cases h with
  | placed place miscall => exact miscall

/-- What stands in a formula has a position. -/
theorem exists_position {arg : Formula} (harg : arg ≠ hole) : ∃ p, arg.position? = some p := by
  cases arg with
  | hole => exact absurd rfl harg
  | _ => exact ⟨_, rfl⟩

/-- A value that a place does not take is a misfit. -/
theorem valueArgument_failsWith {arg : Formula} {index position : Nat} {k : Slot} {v : Value}
    (harg : arg.position? = some position) :
    FailsWith (IsMisfit f arg) (valueArgument f index position k v) := by
  cases k <;> cases v
  case series.series | scalar.scalar => exact failsWith_ok
  all_goals exact failsWith_error (.placed harg rfl)

/-- A text that a place does not take is a misfit. -/
theorem textArgument_failsWith {index : Nat} {arg : Formula} (harg : arg ≠ hole) :
    FailsWith (IsMisfit f arg) (textArgument f index arg) := by
  cases arg with
  | literal content p => exact failsWith_ok
  | hole => exact absurd rfl harg
  | _ => exact failsWith_error (.placed rfl rfl)

/-- An argument fails as its formula does or is a misfit. -/
theorem argument_failsWith {index : Nat} {k : Slot} {arg : Formula} (harg : arg ≠ hole)
    (hmisfit : ∀ fault, IsMisfit f arg fault → allowed fault)
    (hvalue : FailsWith allowed (arg.value observed)) :
    FailsWith allowed (argument f index k arg (arg.value observed)) := by
  by_cases hk : k = .text
  · subst hk
    exact (textArgument_failsWith harg).mono hmisfit
  · by_cases hliteral : ∀ content p, arg ≠ literal content p
    · obtain ⟨p, hp⟩ := exists_position harg
      rw [argument_eq hk hliteral, hp]
      exact hvalue.bind fun _ _ => (valueArgument_failsWith hp).mono hmisfit
    · simp only [ne_eq, not_forall, not_not] at hliteral
      obtain ⟨content, p, rfl⟩ := hliteral
      cases k with
      | text => exact absurd rfl hk
      | series | scalar => exact failsWith_error (hmisfit _ (.placed rfl rfl))

/-- The arguments of a call fail because there are too few, because one of them does not fit its
place or as one of them does. -/
theorem arguments_failsWith {position index : Nat} {ks : List Slot} {args : List Formula}
    (hcount : ∀ got, allowed (.reported (wrongCount f got position)))
    (hmisfit : ∀ arg ∈ args, ∀ fault, IsMisfit f arg fault → allowed fault)
    (hargs : ∀ arg ∈ args, arg ≠ hole ∧ FailsWith allowed (arg.value observed)) :
    FailsWith allowed (arguments observed f position index ks args) := by
  induction ks generalizing index args with
  | nil =>
    rw [arguments]
    exact failsWith_ok
  | cons k ks ih =>
    cases args with
    | nil => exact failsWith_error (hcount index)
    | cons arg args =>
      obtain ⟨hfirst, hrest⟩ := List.forall_mem_cons.mp hmisfit
      obtain ⟨⟨hhole, hvalue⟩, hothers⟩ := List.forall_mem_cons.mp hargs
      rw [arguments_cons]
      exact (argument_failsWith hhole hfirst hvalue).bind fun _ _ => (ih hrest hothers).map

/-- What is told of a call fails as before. -/
theorem told_failsWith {β : Type} {position : Nat} {r : Except Fault β}
    (htold : ∀ fault, fault.IsTold → allowed fault) (h : FailsWith allowed r) :
    FailsWith allowed (told f position r) := by
  cases r with
  | ok x => exact failsWith_ok
  | error fault =>
    cases fault with
    | reported e => exact failsWith_error (htold _ trivial)
    | _ => exact h

/-- The formula is a ratio over shortfalls whose deviation vanishes. -/
def HasVanishingShortfall (observed : Observed) (g : Formula) : Prop :=
  ∃ left right p s x, g = call Function.sortinoRatio.name [left, right] p ∧
    left.value observed = .ok (.series s) ∧ right.value observed = .ok (.scalar x) ∧
    s.HasVanishingShortfall x

/-- A value that fits the place is the argument. -/
theorem argument_of_value {index : Nat} {k : Slot} {arg : Formula} {v : Value} (hk : k ≠ .text)
    (h : arg.value observed = .ok v) :
    argument f index k arg (arg.value observed) =
      valueArgument f index (arg.position?.getD 0) k v := by
  have hliteral : ∀ content p, arg ≠ literal content p := by
    rintro content p rfl
    cases h
  rw [argument_eq hk hliteral, h]
  rfl

/-- Such a ratio breaks off. -/
theorem value_of_hasVanishingShortfall {g : Formula} (h : HasVanishingShortfall observed g) :
    g.value observed = .error (.breakdown .vanishingShortfall) := by
  obtain ⟨left, right, p, s, x, rfl, hleft, hright, rs, hreturns, hbelow, hzero⟩ := h
  have hratio : s.sortinoRatio x = .error .vanishingShortfall := by
    refine bind_eq_error.mpr (.inr ⟨rs, hreturns, ?_⟩)
    cases hshortfalls : Series.shortfalls x rs with
    | nil => exact absurd hshortfalls hbelow
    | cons y below =>
      rw [hshortfalls] at hzero
      simp only [hzero, if_true]
  have hfunction : Function.ofName? Function.sortinoRatio.name = some .sortinoRatio := by cbv
  have harguments : arguments observed .sortinoRatio p 0 [.series, .scalar] [left, right] =
      .ok (⟨s, left.position?.getD 0⟩, ⟨x, right.position?.getD 0⟩, ()) := by
    rw [arguments_cons, argument_of_value (by decide) hleft, arguments_cons,
      argument_of_value (by decide) hright]
    rfl
  rw [value_call hfunction rfl]
  refine bind_eq_error.mpr (.inr ⟨_, harguments, map_eq_error.mpr ?_⟩)
  simp only [Function.apply, Function.ofData, hratio]
  rfl

/-- The ways in which a formula can fail. -/
inductive FailsBy (observed : Observed) (f : Formula) : Fault → Prop
  /-- With an error that is told. -/
  | told {fault : Fault} (told : fault.IsTold) : FailsBy observed f fault
  /-- In a ratio over shortfalls whose deviation vanishes. -/
  | vanishing {g : Formula} (part : g ∈ f.parts) (vanishing : HasVanishingShortfall observed g) :
    FailsBy observed f (.breakdown .vanishingShortfall)

/-- What fails an argument fails the call. -/
theorem FailsBy.of_arg {name : String} {args : List Formula} {p : Nat} {arg : Formula}
    {fault : Fault} (harg : arg ∈ args) (h : FailsBy observed arg fault) :
    FailsBy observed (call name args p) fault := by
  cases h with
  | told told => exact .told told
  | vanishing part vanishing =>
    exact .vanishing (mem_parts_call.mpr (.inr ⟨arg, harg, part⟩)) vanishing

/-- A function that breaks does so in a call of a ratio over shortfalls. -/
theorem hasVanishingShortfall_of_breaks {args : List Formula} {p : Nat}
    {values : Arguments f.slots} (hgive : AllGive observed f.slots values args)
    (h : f.Breaks values) : HasVanishingShortfall observed (call f.name args p) := by
  cases f with
  | sortinoRatio =>
    obtain ⟨s, rate, _⟩ := values
    obtain _ | ⟨left, _ | ⟨right, _ | ⟨other, args⟩⟩⟩ := args
    · exact hgive.elim
    · exact hgive.2.elim
    · exact ⟨left, right, p, s.value, rate.value, rfl, hgive.1, hgive.2.1, h⟩
    · exact hgive.2.2.elim
  | _ => exact h.elim

/-- A formula that can be written fails with an error that is told, or a part of it is a ratio
over shortfalls whose deviation vanishes. -/
theorem value_failsWith {f : Formula} (hf : f.isCanonical = true) :
    FailsWith (FailsBy observed f) (f.value observed) := by
  induction f using Formula.induction with
  | number x p => exact failsWith_ok
  | literal content p => exact failsWith_error (.told trivial)
  | indicator slug p => exact (resolve_failsWith slug p).map.mono fun _ => .told
  | call name args p ih =>
    obtain ⟨hname, -, -, hargs⟩ := isCanonical_call_iff.mp hf
    cases hfunction : Function.ofName? name with
    | none =>
      simp only [value, hfunction]
      exact failsWith_error (.told trivial)
    | some f =>
      by_cases hlength : args.length = f.arity
      · obtain rfl := name_eq_of_ofName? hname hfunction
        rw [value_call hfunction hlength]
        refine (arguments_failsWith (fun _ => .told trivial)
          (fun _ _ _ hmisfit => .told hmisfit.isMiscall.isTold)
          fun arg harg => ⟨?_, ?_⟩).bind fun values hvalues => ?_
        · rintro rfl
          cases hargs hole harg
        · exact (ih arg harg (hargs arg harg)).mono fun _ hfault => hfault.of_arg harg
        · refine (told_failsWith (fun _ => .told) (Function.apply_failsWith rfl (fun _ => .told)
            (fun hbreaks => ?_) fun slug _ position => ?_)).map
          · exact .vanishing (mem_parts_self _)
              (hasVanishingShortfall_of_breaks (allGive_of_arguments hlength hvalues) hbreaks)
          · exact (resolve_failsWith slug position).mono fun _ => .told
      · simp only [value, hfunction, ne_eq, hlength, not_false_eq_true, if_true]
        exact failsWith_error (.told trivial)
  | hole => cases hf

end Formula

end IndicatorFormula
