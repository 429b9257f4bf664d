import IndicatorFormula.Proofs.Evaluation.Texts
import IndicatorFormula.Proofs.Formula.Spans
import IndicatorFormula.Proofs.Formula.Weights
import IndicatorFormula.Proofs.Function.Blame

/-!
# Of which part an error is told

An error that an evaluation tells comes from one part of the formula. It is told of that part and
of a place in what is written of it, and every call around it passes the error on as it is. The
induction is over the formula: either an argument fails with the error already, or the call does
by itself, and then it has filled in its own name and place.
-/

namespace IndicatorFormula.Formula

open Text IndicatorFormula.Except

variable {observed : Observed} {e : CalcError}

section Calls

variable {f : Function} {args : List Formula} {p q : Nat}

/-- An argument that fits its place stands where its formula does. -/
theorem position_of_argument {index : Nat} {k : Slot} {arg : Formula} {x : Placed k.Carrier}
    (hq : arg.position? = some q) (h : argument f index k arg (arg.value observed) = .ok x) :
    x.position = q := by
  by_cases hk : k = .text
  · subst hk
    cases arg <;> cases h
    exact Option.some.inj hq
  · by_cases hliteral : ∀ content p, arg ≠ literal content p
    · rw [argument_eq hk hliteral, hq] at h
      obtain ⟨v, -, hx⟩ := bind_eq_ok.mp h
      cases k <;> cases v <;> cases hx <;> rfl
    · simp only [ne_eq, not_forall, not_not] at hliteral
      obtain ⟨content, p, rfl⟩ := hliteral
      cases k with
      | text => exact absurd rfl hk
      | series | scalar => cases h

/-- The arguments of a function stand where the formulas in its places do. -/
theorem exists_arg_of_mem_places {index : Nat} {ks : List Slot} {values : Arguments ks}
    (hargs : ∀ arg ∈ args, arg ≠ hole) (h : arguments observed f p index ks args = .ok values)
    (hq : q ∈ Arguments.places ks values) : ∃ arg ∈ args, arg.position? = some q := by
  induction ks generalizing index args with
  | nil => cases hq
  | cons k ks ih =>
    cases args with
    | nil => cases h
    | cons arg args =>
      obtain ⟨hhole, hothers⟩ := List.forall_mem_cons.mp hargs
      rw [arguments_cons] at h
      obtain ⟨first, hfirst, h⟩ := bind_eq_ok.mp h
      obtain ⟨rest, hrest, rfl⟩ := map_eq_ok.mp h
      rcases List.mem_cons.mp hq with rfl | hq
      · obtain ⟨p', hp'⟩ := exists_position hhole
        exact ⟨arg, List.mem_cons_self .., position_of_argument hp' hfirst ▸ hp'⟩
      · obtain ⟨arg', harg', hposition⟩ := ih hothers hrest hq
        exact ⟨arg', List.mem_cons_of_mem _ harg', hposition⟩

/-- An error is told of a formula itself, not of one of its arguments. -/
inductive IsToldOf : Formula → CalcError → Prop
  /-- An indicator is told by its place. -/
  | indicator {slug : String} {p : Nat} {e : CalcError} (beyond : e.code ≠ .parse)
    (function : e.function = none) (position : e.position = some p) :
    IsToldOf (indicator slug p) e
  /-- So is a text that stands alone. -/
  | literal {content : String} {p : Nat} {e : CalcError} (beyond : e.code ≠ .parse)
    (function : e.function = none) (position : e.position = some p) :
    IsToldOf (literal content p) e
  /-- A call is told by its name, and by its place or that of an argument. -/
  | call {name : String} {args : List Formula} {p q : Nat} {e : CalcError}
    (beyond : e.code ≠ .parse) (function : e.function = some name)
    (position : e.position = some q) (place : q = p ∨ ∃ arg ∈ args, arg.position? = some q) :
    IsToldOf (call name args p) e
  /-- The function called cannot read its text. -/
  | text {g : Formula} {e : CalcError} (fails : TextFails g e) : IsToldOf g e

/-- A misfit of an argument is told of the call. -/
theorem IsMisfit.isToldOf {arg : Formula} (harg : arg ∈ args)
    (h : IsMisfit f arg (.reported e)) : IsToldOf (Formula.call f.name args p) e := by
  have hbeyond : e.code ≠ .parse := h.isMiscall.isBeyondReading
  cases h with
  | placed place miscall => exact .call hbeyond rfl rfl (.inr ⟨arg, harg, place⟩)

theorem isToldOf_wrongCount (got : Nat) :
    IsToldOf (call f.name args p) (wrongCount f got p) :=
  .call (show ErrorCode.arity ≠ .parse by decide) rfl rfl (.inl rfl)

/-- A look-up names no function, and the place at which the indicator is named. -/
theorem resolve_blames {values : Arguments f.slots} (slug : String)
    (hq : q ∈ Arguments.places f.slots values) :
    FailsWith (f.Blames ⟨f.name, resolve observed⟩ values) (resolve observed slug q) := by
  unfold resolve
  split
  · exact failsWith_ok
  · have hcode : ErrorCode.unknownIndicator ≠ .parse := by decide
    refine failsWith_error (.confined ⟨hcode, fun _ h => ?_, fun _ h => ?_⟩)
    · cases h
    · exact Option.some.inj h ▸ hq

/-- An error that a function leaves open is told of its call. -/
theorem isToldOf_within {places : List Nat} (he : e.IsConfined f.name places)
    (hplaces : ∀ q ∈ places, ∃ arg ∈ args, arg.position? = some q) :
    IsToldOf (call f.name args p) (e.within f p) := by
  have hfunction : (e.within f p).function = some f.name := by
    cases h : e.function with
    | none => simp [CalcError.within, h]
    | some other => simp [CalcError.within, h, he.function other h]
  cases h : e.position with
  | none => exact .call he.beyond hfunction (by simp [CalcError.within, h]) (.inl rfl)
  | some q =>
    exact .call he.beyond hfunction (by simp [CalcError.within, h])
      (.inr (hplaces q (he.position q h)))

/-- A function that fails on the arguments of a call has its error told of that call. -/
theorem told_isToldOf {values : Arguments f.slots} (hargs : ∀ arg ∈ args, arg ≠ hole)
    (hlength : args.length = f.arity)
    (hvalues : arguments observed f p 0 f.slots args = .ok values)
    (h : told f p (f.apply ⟨f.name, resolve observed⟩ values) = .error (.reported e)) :
    IsToldOf (call f.name args p) e := by
  cases happly : f.apply ⟨f.name, resolve observed⟩ values with
  | ok x =>
    rw [happly] at h
    cases h
  | error fault =>
    have hblames := Function.apply_blames (fun slug _ hq => resolve_blames slug hq) fault happly
    rw [happly] at h
    cases hblames with
    | confined confined =>
      cases h
      exact isToldOf_within confined fun q hq => exists_arg_of_mem_places hargs hvalues hq
    | text misread =>
      cases h
      exact .text (textFails_of_misreads (allGive_of_arguments hlength hvalues) misread)
    | untold untold =>
      cases fault with
      | reported e' => exact absurd rfl (untold e')
      | _ => cases h

/-- A call fails as one of its arguments does, or its error is told of the call itself. -/
theorem call_isToldOf {name : String} (hcall : (call name args p).isCanonical = true)
    (hown : ∀ arg ∈ args, arg.value observed ≠ .error (.reported e))
    (h : (call name args p).value observed = .error (.reported e)) :
    IsToldOf (call name args p) e := by
  obtain ⟨hname, -, -, hargs⟩ := isCanonical_call_iff.mp hcall
  have hholes : ∀ arg ∈ args, arg ≠ hole := by
    rintro arg harg rfl
    cases hargs hole harg
  cases hfunction : Function.ofName? name with
  | none =>
    simp only [value, hfunction] at h
    cases h
    exact .call (show ErrorCode.unknownFunction ≠ .parse by decide) rfl rfl (.inl rfl)
  | some f =>
    obtain rfl := name_eq_of_ofName? hname hfunction
    by_cases hlength : args.length = f.arity
    · rw [value_call hfunction hlength] at h
      rcases bind_eq_error.mp h with h | ⟨values, hvalues, h⟩
      · have harguments : FailsWith
            (fun fault => ∀ e', fault = .reported e' → (∃ arg ∈ args, arg.value observed =
              .error (.reported e')) ∨ IsToldOf (call f.name args p) e')
            (arguments observed f p 0 f.slots args) :=
          arguments_failsWith
            (fun got e' h => .inr (Fault.reported.inj h ▸ isToldOf_wrongCount got))
            (fun arg harg fault hmisfit e' h => .inr ((h ▸ hmisfit).isToldOf harg))
            fun arg harg => ⟨hholes arg harg, fun fault hfault e' h =>
              .inl ⟨arg, harg, h ▸ hfault⟩⟩
        rcases harguments _ h e rfl with ⟨arg, harg, hvalue⟩ | htold
        · exact absurd hvalue (hown arg harg)
        · exact htold
      · exact told_isToldOf hholes hlength hvalues (map_eq_error.mp h)
    · simp only [value, hfunction, ne_eq, hlength, not_false_eq_true, if_true] at h
      cases h
      exact isToldOf_wrongCount _

end Calls

/-- A formula fails with an error, and so does every call on the way from it to a part. -/
inductive PassesOn (observed : Observed) (e : CalcError) : Formula → Formula → Prop
  /-- The part is the formula. -/
  | self {g : Formula} (fails : g.value observed = .error (.reported e)) : PassesOn observed e g g
  /-- The part is one of an argument. -/
  | arg {name : String} {args : List Formula} {p : Nat} {arg g : Formula}
    (fails : (call name args p).value observed = .error (.reported e)) (mem : arg ∈ args)
    (passes : PassesOn observed e arg g) : PassesOn observed e (call name args p) g

/-- What passes an error on to a formula has that among its parts. -/
theorem PassesOn.mem_parts {f g : Formula} (h : PassesOn observed e f g) : g ∈ f.parts := by
  induction h with
  | self fails => exact mem_parts_self _
  | arg fails mem passes ih => exact mem_parts_call.mpr (.inr ⟨_, mem, ih⟩)

/-- If the parts of a formula stand apart, all that stand around the part fail with the error. -/
theorem PassesOn.value_eq {f g outer : Formula} {q : Nat} (h : PassesOn observed e f g)
    (hq : g.position? = some q) (hapart : (places f.parts).Pairwise (· < ·))
    (houter : outer ∈ f.parts) (hg : g ∈ outer.parts) :
    outer.value observed = .error (.reported e) := by
  induction h with
  | self fails =>
    rw [eq_of_mem_parts_of_mem_parts hapart houter hg]
    exact fails
  | arg fails mem passes ih =>
    rcases mem_parts_call.mp houter with rfl | ⟨arg', harg', houter⟩
    · exact fails
    · have heq := eq_of_mem_parts hapart hq mem passes.mem_parts harg'
        (mem_parts_trans houter hg)
      exact ih hq (pairwise_places_arg hapart mem) (heq ▸ houter) hg

/-- An error of a formula that can be written is passed on from a part of which it is told, and
of which no argument fails with it. -/
theorem exists_isToldOf {f : Formula} (hf : f.isCanonical = true)
    (h : f.value observed = .error (.reported e)) :
    ∃ g, PassesOn observed e f g ∧ IsToldOf g e ∧ ∀ name args p, g = call name args p →
      ∀ arg ∈ args, arg.value observed ≠ .error (.reported e) := by
  induction f using Formula.induction with
  | number x p => cases h
  | literal content p =>
    refine ⟨_, .self h, ?_, nofun⟩
    cases h
    exact .literal (show ErrorCode.type ≠ .parse by decide) rfl rfl
  | indicator slug p =>
    refine ⟨_, .self h, ?_, nofun⟩
    have hresolve := map_eq_error.mp h
    unfold resolve at hresolve
    split at hresolve <;> cases hresolve
    exact .indicator (show ErrorCode.unknownIndicator ≠ .parse by decide) rfl rfl
  | call name args p ih =>
    obtain ⟨-, -, -, hargs⟩ := isCanonical_call_iff.mp hf
    by_cases hown : ∀ arg ∈ args, arg.value observed ≠ .error (.reported e)
    · refine ⟨_, .self h, call_isToldOf hf hown h, ?_⟩
      rintro name' args' p' ⟨⟩
      exact hown
    · simp only [ne_eq, not_forall, not_not] at hown
      obtain ⟨arg, harg, hvalue⟩ := hown
      obtain ⟨g, hpasses, hg⟩ := ih arg harg (hargs arg harg) hvalue
      exact ⟨g, .arg h harg hpasses, hg⟩
  | hole => cases hf

/-- An error is told of a part as this is written in a text, at a place. -/
inductive IsToldAt (t : List Char) (e : CalcError) (p : Nat) : Formula → Prop
  /-- Of an indicator where it stands, and of no function. -/
  | indicator {slug : String} (function : e.function = none) : IsToldAt t e p (indicator slug p)
  /-- Of a quoted text where it stands, and of no function. -/
  | literal {content : String} (function : e.function = none) :
    IsToldAt t e p (literal content p)
  /-- Of a call by its name, within what is written of it. -/
  | call {name : String} {args : List Formula} {first last : Nat}
    (function : e.function = some name) (span : Occupies t (call name args first) first last)
    (first_le : first ≤ p) (lt_last : p < last) : IsToldAt t e p (call name args first)

/-- A part is a call with a text of weights of which a pair is wrong, and this pair stands at a
place: it is the first one and begins with the text, or it begins right behind a comma. -/
def HasWrongPair (t : List Char) (g : Formula) (p : Nat) (problem : Problem) : Prop :=
  ∃ content q start before pair after front rest,
    g = call Function.weightedIndex.name [literal content q] start ∧
    Constituent.pieces content.toList = before ++ pair :: after ∧
    Constituent.IsWrongPair (Constituent.slugs before) pair problem ∧
    t = front ++ (pair ++ rest) ∧ front.length = p ∧
    ((before = [] ∧ p = q) ∨ (before ≠ [] ∧ front.getLast? = some ','))

/-- A part of a formula in a text is where an error comes from, at a place. -/
structure IsSource (t : List Char) (outcome : Formula → Except Fault Value) (f : Formula)
    (e : CalcError) (g : Formula) (p : Nat) : Prop where
  /-- It is a part of the formula. -/
  part : g ∈ f.parts
  /-- The error tells the place. -/
  position : e.position = some p
  /-- The place lies in the text or right behind it. -/
  inside : p ≤ t.length
  /-- The error is told of the part as it is written. -/
  told : IsToldAt t e p g
  /-- The part by itself fails with the error. -/
  alone : outcome g = .error (.reported e)
  /-- None of its arguments does. -/
  innermost : ∀ name args start, g = call name args start →
    ∀ arg ∈ args, outcome arg ≠ .error (.reported e)
  /-- Whatever stands around it passes the error on as it is. -/
  passed : ∀ outer ∈ f.parts, g ∈ outer.parts → outcome outer = .error (.reported e)
  /-- If a pair of weights is wrong, then it stands at the place. -/
  pair : ∀ r, e.cause = .unreadable r → r.problem.IsOfPair → HasWrongPair t g p r.problem

section Text

variable {text : String} {f g : Formula} {p : Nat}

theorem LeftAt.le {t cs : List Char} (h : LeftAt t p cs) : p ≤ t.length := by
  obtain ⟨front, rfl, rfl⟩ := h
  simp

/-- What a call names of its own place or of that of an argument lies in what is written of it. -/
theorem isToldAt_call {name : String} {args : List Formula} {q : Nat}
    (hread : read text = .ok f) (hg : call name args p ∈ f.parts)
    (hfunction : e.function = some name)
    (hq : q = p ∨ ∃ arg ∈ args, arg.position? = some q) :
    IsToldAt text.toList e q (call name args p) := by
  obtain ⟨last, hspan, hplaces, -⟩ := exists_occupies hread hg
  have hwithin : p ≤ q ∧ q < last := by
    refine hplaces q ?_
    rcases hq with rfl | ⟨arg, harg, hq⟩
    · exact mem_places (mem_parts_self _) rfl
    · exact mem_places (mem_parts_call.mpr (.inr ⟨arg, harg, mem_parts_self arg⟩)) hq
  exact .call hfunction hspan hwithin.1 hwithin.2

/-- A text of weights that cannot be read has a wrong pair, which stands in the text of the
formula as far behind the place of the weights as in these. -/
theorem hasWrongPair_of_readAll {content : String} {q start : Nat} {r : ReadError}
    (hread : read text = .ok f)
    (hg : call Function.weightedIndex.name [literal content q] start ∈ f.parts)
    (h : Constituent.readAll content q = .error r) :
    HasWrongPair text.toList (call Function.weightedIndex.name [literal content q] start)
      r.position r.problem ∧ q ≤ r.position ∧ r.position ≤ q + content.toList.length := by
  obtain ⟨before, pair, after, hpairs, hposition, hwrong⟩ := Constituent.exists_of_readAll h
  obtain ⟨rest, hcontent⟩ := Constituent.exists_of_pieces hpairs
  have hliteral : literal content q ∈ f.parts := mem_parts_trans hg
    (mem_parts_call.mpr (.inr ⟨_, List.mem_singleton_self _, mem_parts_self _⟩))
  obtain ⟨first, last, hanchored⟩ := areAnchored_of_read hread
  obtain ⟨behind, front, htext, hfront⟩ := hanchored.anchored _ hliteral
  refine ⟨⟨content, q, start, before, pair, after, front ++ Constituent.closed before,
    rest ++ behind, rfl, hpairs, hwrong, ?_, ?_, ?_⟩, ?_, ?_⟩
  · rw [htext, hcontent]
    simp only [List.append_assoc]
  · rw [List.length_append, hfront, hposition]
  · by_cases hbefore : before = []
    · exact .inl ⟨hbefore, by rw [hposition, hbefore]; rfl⟩
    · have hcomma := Constituent.getLast?_closed hbefore
      exact .inr ⟨hbefore, List.mem_getLast?_append_of_mem_getLast? hcomma⟩
  · omega
  · rw [hposition, hcontent, List.length_append]
    omega

/-- An error that is told of a part tells a place in what is written of the part, and if a pair
of weights is wrong, that of the pair. -/
theorem IsToldOf.exists_isToldAt (hread : read text = .ok f) (hg : g ∈ f.parts)
    (h : IsToldOf g e) : ∃ p, e.position = some p ∧ IsToldAt text.toList e p g ∧
      ∀ r, e.cause = .unreadable r → r.problem.IsOfPair →
        HasWrongPair text.toList g p r.problem := by
  have hpair {p : Nat} (beyond : e.code ≠ .parse) (r : ReadError)
      (hcause : e.cause = .unreadable r) (_ : r.problem.IsOfPair) :
      HasWrongPair text.toList g p r.problem :=
    absurd (by rw [CalcError.code, hcause, Cause.code]) beyond
  cases h with
  | indicator beyond function position =>
    exact ⟨_, position, .indicator function, hpair beyond⟩
  | literal beyond function position => exact ⟨_, position, .literal function, hpair beyond⟩
  | call beyond function position place =>
    exact ⟨_, position, isToldAt_call hread hg function place, hpair beyond⟩
  | text fails =>
    cases fails with
    | @weights content start q r malformed =>
      obtain ⟨hwrong, hle, hlt⟩ := hasWrongPair_of_readAll hread hg malformed
      obtain ⟨last, hspan, hplaces, hend⟩ := exists_occupies hread hg
      refine ⟨r.position, rfl, .call rfl hspan ?_ ?_, ?_⟩
      · exact (hplaces q (mem_places (mem_parts_call.mpr
          (.inr ⟨_, List.mem_singleton_self _, mem_parts_self _⟩)) rfl)).1.trans hle
      · exact hlt.trans_lt (hend content q rfl)
      · intro r' hcause _
        obtain rfl := Cause.unreadable.inj hcause
        exact hwrong
    | @condition content start q r malformed =>
      unfold Condition.read at malformed
      split at malformed <;> cases malformed
      refine ⟨q, rfl, isToldAt_call hread hg rfl
        (.inr ⟨_, List.mem_singleton_self _, rfl⟩), ?_⟩
      intro r hcause hof
      obtain rfl := Cause.unreadable.inj hcause
      exact hof.elim

/-- A place at which an error is told of a part lies in the text. -/
theorem IsToldAt.le (h : IsToldAt text.toList e p g) (hread : read text = .ok f)
    (hg : g ∈ f.parts) : p ≤ text.toList.length := by
  obtain ⟨first, last, hanchored⟩ := areAnchored_of_read hread
  have hstands := hanchored.anchored g hg
  cases h with
  | indicator function | literal function =>
    obtain ⟨rest, hleft⟩ := hstands
    exact hleft.le
  | call function span first_le lt_last => exact (Nat.le_of_lt lt_last).trans span.last_le

end Text

/-- An error of evaluating whatever was read comes from one part of the formula. It is told of
this part and of a place within it: of an indicator or a quoted text where it stands and of no
function, of a call by its name and somewhere between its beginning and its end. The part by
itself fails with the same error and no argument of it does, and every call around it passes the
error on unchanged. If a pair of weights is wrong, the place is that at which the pair begins. -/
theorem evaluate_tells_source {text : String} {f : Formula}
    {fetched : Table String (List (Observation Float))} {context : Context} {e : CalcError}
    (hread : read text = .ok f) (h : f.evaluate fetched context = .error (.reported e)) :
    ∃ g p, IsSource text.toList (fun g => g.evaluate fetched context) f e g p := by
  obtain ⟨observed, hobserved, hvalue⟩ := exists_value_of_evaluate h
  obtain ⟨g, hpasses, htold, hinnermost⟩ := exists_isToldOf (isCanonical_of_read hread) hvalue
  have hpart := hpasses.mem_parts
  obtain ⟨p, hposition, htoldAt, hpair⟩ := htold.exists_isToldAt hread hpart
  obtain ⟨first, last, hanchored⟩ := areAnchored_of_read hread
  obtain ⟨q, hq⟩ : ∃ q, g.position? = some q := exists_position (by rintro rfl; cases htoldAt)
  have hpassed : ∀ outer ∈ f.parts, g ∈ outer.parts →
      outer.evaluate fetched context = .error (.reported e) := fun outer houter hg =>
    (evaluate_eq_value hobserved).trans (hpasses.value_eq hq hanchored.ordered houter hg)
  refine ⟨g, p, ?_⟩
  exact {
    part := hpart
    position := hposition
    inside := htoldAt.le hread hpart
    told := htoldAt
    alone := hpassed g hpart (mem_parts_self g)
    innermost := fun name args start hg arg harg hfails =>
      hinnermost name args start hg arg harg ((evaluate_eq_value hobserved).symm.trans hfails)
    passed := hpassed
    pair := hpair }

/-- The second weight of an indicator in the argument of a sum. -/
theorem evaluate_tells_source_duplicate :
    read "SUM(WEIGHTED_INDEX(a:1, a:2))" =
        .ok (call "SUM" [call "WEIGHTED_INDEX" [literal "a:1, a:2" 19] 4] 0) ∧
      ∃ e, (call "SUM" [call "WEIGHTED_INDEX" [literal "a:1, a:2" 19] 4] 0).evaluate [] {} =
          .error (.reported e) ∧ e.position = some 23 ∧ e.function = some "WEIGHTED_INDEX" ∧
        ∃ g p, IsSource "SUM(WEIGHTED_INDEX(a:1, a:2))".toList (fun g => g.evaluate [] {})
          (call "SUM" [call "WEIGHTED_INDEX" [literal "a:1, a:2" 19] 4] 0) e g p := by
  have hread : read "SUM(WEIGHTED_INDEX(a:1, a:2))" =
      .ok (call "SUM" [call "WEIGHTED_INDEX" [literal "a:1, a:2" 19] 4] 0) := by cbv
  have hinner : (call "WEIGHTED_INDEX" [literal "a:1, a:2" 19] 4).value [] =
      .error (.reported ((CalcError.ofRead ⟨.duplicateWeight "a", 23⟩).within
        .weightedIndex 4)) := value_of_textFails (.weights (by rfl)) []
  have hfails : (call "SUM" [call "WEIGHTED_INDEX" [literal "a:1, a:2" 19] 4] 0).evaluate [] {} =
      .error (.reported ((CalcError.ofRead ⟨.duplicateWeight "a", 23⟩).within
        .weightedIndex 4)) := by
    have hobserved : observe ({} : Context) [] = .ok [] := rfl
    have hsum : Function.ofName? "SUM" = some .sum := by cbv
    rw [evaluate_eq_value hobserved, value_call hsum rfl]
    simp only [Function.slots, arguments_cons, hinner]
    rfl
  exact ⟨hread, _, hfails, rfl, rfl, evaluate_tells_source hread hfails⟩

end IndicatorFormula.Formula
