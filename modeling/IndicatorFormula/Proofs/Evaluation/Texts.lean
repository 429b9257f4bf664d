import IndicatorFormula.Proofs.Evaluation.Failure

/-!
# Texts that a function cannot read

Two functions take a text and read it for themselves, so that nothing is known of it before the
evaluation. An error of reading that an evaluation tells is that of such a text: it comes from a
call in the formula, and this call tells it whatever the data are. The induction is over the
formula, and what it carries is that every other error is of another kind.
-/

namespace IndicatorFormula

open IndicatorFormula.Except

/-- The fault is no error of reading. -/
def Fault.IsBeyondReading : Fault → Prop
  | reported e => e.code ≠ .parse
  | _ => True

/-- A miscall is no matter of reading a text. -/
theorem Fault.IsMiscall.isBeyondReading {fault : Fault} (h : fault.IsMiscall) :
    fault.IsBeyondReading := by
  cases fault with
  | reported e =>
    intro hcode
    have hcauses := (Cause.isMiscall_iff.mp h).1
    rw [show e.cause.code = .parse from hcode] at hcauses
    simp at hcauses
  | _ => trivial

namespace Formula

variable {observed : Observed} {f : Function} {e : CalcError}

/-- The formula is a call of a function that cannot read its text, and the error tells of it. -/
inductive TextFails : Formula → CalcError → Prop
  /-- The text is no list of weights. -/
  | weights {content : String} {p q : Nat} {r : ReadError}
    (malformed : Constituent.readAll content q = .error r) :
    TextFails (call Function.weightedIndex.name [literal content q] p)
      ((CalcError.ofRead r).within .weightedIndex p)
  /-- The text is no condition. -/
  | condition {content : String} {p q : Nat} {r : ReadError}
    (malformed : Condition.read content q = .error r) :
    TextFails (call Function.booleanSignal.name [literal content q] p)
      ((CalcError.ofRead r).within .booleanSignal p)

/-- A text that is misread makes the call fail by it. -/
theorem textFails_of_misreads {args : List Formula} {p : Nat} {values : Arguments f.slots}
    {r : ReadError} (hgive : AllGive observed f.slots values args) (h : f.Misreads values r) :
    TextFails (call f.name args p) ((CalcError.ofRead r).within f p) := by
  -- A function that reads a text has no other argument.
  have hone {values : Arguments [.text]} (hgive : AllGive observed [.text] values args) :
      args = [literal values.1.value values.1.position] := by
    obtain _ | ⟨arg, _ | ⟨other, args⟩⟩ := args
    · exact hgive.elim
    · exact congrArg (fun arg => [arg]) hgive.1
    · exact hgive.2.elim
  cases f with
  | weightedIndex =>
    rw [hone hgive]
    exact .weights h
  | booleanSignal =>
    rw [hone hgive]
    exact .condition h
  | _ => exact h.elim

/-- A call whose text is misread fails with what reading tells, within the call. -/
theorem value_of_misreads {args : List Formula} {p : Nat} {values : Arguments f.slots}
    {r : ReadError} (hfunction : Function.ofName? f.name = some f)
    (hlength : args.length = f.arity)
    (harguments : arguments observed f p 0 f.slots args = .ok values) (h : f.Misreads values r) :
    (call f.name args p).value observed =
      .error (.reported ((CalcError.ofRead r).within f p)) := by
  rw [value_call hfunction hlength, harguments]
  refine map_eq_error.mpr ?_
  rw [Function.apply_of_misreads h]
  rfl

/-- A call of a function that cannot read its text tells the error of it, whatever is
observed. -/
theorem value_of_textFails {g : Formula} (h : TextFails g e) (observed : Observed) :
    g.value observed = .error (.reported e) := by
  cases h with
  | weights malformed => exact value_of_misreads (by cbv) rfl rfl malformed
  | condition malformed => exact value_of_misreads (by cbv) rfl rfl malformed

/-- The ways in which a formula can fail, as far as reading is concerned. -/
inductive FailsByText (f : Formula) : Fault → Prop
  /-- With an error of another kind. -/
  | other {fault : Fault} (beyond : fault.IsBeyondReading) : FailsByText f fault
  /-- In a function that cannot read its text. -/
  | text {g : Formula} {e : CalcError} (part : g ∈ f.parts) (fails : TextFails g e) :
    FailsByText f (.reported e)

theorem FailsByText.of_isMiscall {f : Formula} {fault : Fault} (h : fault.IsMiscall) :
    FailsByText f fault := .other h.isBeyondReading

/-- If an argument fails by a text, the call fails by that text. -/
theorem FailsByText.of_arg {name : String} {args : List Formula} {p : Nat} {arg : Formula}
    {fault : Fault} (harg : arg ∈ args) (h : FailsByText arg fault) :
    FailsByText (call name args p) fault := by
  cases h with
  | other beyond => exact .other beyond
  | text part fails => exact .text (mem_parts_call.mpr (.inr ⟨arg, harg, part⟩)) fails

/-- A slug that does not resolve is reported as unknown. -/
theorem exists_of_resolve {slug : String} {position : Nat} {fault : Fault}
    (h : resolve observed slug position = .error fault) :
    ∃ e, fault = .reported e ∧ e.code = .unknownIndicator := by
  unfold resolve at h
  split at h
  · cases h
  · cases h
    exact ⟨_, rfl, rfl⟩

/-- A call fails with an error of reading only if its function cannot read the text. -/
theorem told_failsByText {args : List Formula} {p : Nat} {values : Arguments f.slots}
    (hgive : AllGive observed f.slots values args) :
    FailsWith (FailsByText (call f.name args p))
      (told f p (f.apply ⟨f.name, resolve observed⟩ values)) := by
  cases happly : f.apply ⟨f.name, resolve observed⟩ values with
  | ok x => exact failsWith_ok
  | error fault =>
    cases Function.apply_fails fault happly with
    | @count e name index minimum got cause =>
      have hcode : e.code = .type := by rw [CalcError.code, cause, Cause.code]
      exact failsWith_error (.other (hcode.trans_ne (by decide)))
    | @data e d cause =>
      have hcode : e.code ≠ .parse := by
        rw [CalcError.code, cause]
        exact Cause.code_data_ne d
      exact failsWith_error (.other hcode)
    | vanishing breaks => exact failsWith_error (.other trivial)
    | misspelled other => exact absurd rfl other
    | text misread =>
      exact failsWith_error (.text (mem_parts_self _) (textFails_of_misreads hgive misread))
    | lookUp named found =>
      obtain ⟨e, rfl, hcode⟩ := exists_of_resolve found
      exact failsWith_error (.other (hcode.trans_ne (by decide)))

/-- A formula that can be written fails with an error of reading only in a part that is a call
of a function that cannot read its text. -/
theorem value_failsByText {f : Formula} (hf : f.isCanonical = true) :
    FailsWith (FailsByText f) (f.value observed) := by
  induction f using Formula.induction with
  | number x p => exact failsWith_ok
  | literal content p => exact failsWith_error (.of_isMiscall rfl)
  | indicator slug p =>
    refine FailsWith.map fun fault hfault => ?_
    obtain ⟨e, rfl, hcode⟩ := exists_of_resolve hfault
    exact .other (hcode.trans_ne (by decide))
  | call name args p ih =>
    obtain ⟨hname, -, -, hargs⟩ := isCanonical_call_iff.mp hf
    cases hfunction : Function.ofName? name with
    | none =>
      simp only [value, hfunction]
      exact failsWith_error (.of_isMiscall rfl)
    | some f =>
      by_cases hlength : args.length = f.arity
      · obtain rfl := name_eq_of_ofName? hname hfunction
        rw [value_call hfunction hlength]
        refine (arguments_failsWith (fun _ => .of_isMiscall rfl)
          (fun _ _ _ hmisfit => .of_isMiscall hmisfit.isMiscall)
          fun arg harg => ⟨?_, ?_⟩).bind fun values hvalues => ?_
        · rintro rfl
          cases hargs hole harg
        · exact (ih arg harg (hargs arg harg)).mono fun _ hfault => hfault.of_arg harg
        · exact (told_failsByText (allGive_of_arguments hlength hvalues)).map
      · simp only [value, hfunction, ne_eq, hlength, not_false_eq_true, if_true]
        exact failsWith_error (.of_isMiscall rfl)
  | hole => cases hf

end Formula

end IndicatorFormula
