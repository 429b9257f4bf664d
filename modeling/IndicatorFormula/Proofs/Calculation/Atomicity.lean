import IndicatorFormula.Proofs.Calculation.Balance

/-!
# A run changes all or nothing

Behind the point where a value was found a run can still break off: where the value is rendered,
where the time is taken and where the calculation is written, in this order. Whatever breaks off,
the repository is what it was if it writes wholly or not at all. A run that succeeds keeps the
calculation that it gives back, and the payload of that is the payload of the outcome.
-/

namespace IndicatorFormula

open Steps Effect

/-- A value is rendered in the context of the run, and the repository keeps a calculation under its
number or breaks off and keeps nothing. The store, the clock and the platform may do anything. -/
structure Surroundings.IsFaithful (s : Surroundings) : Prop where
  /-- A value is rendered in the context. -/
  renders : ∀ type asOf value, s.render type asOf value = Payload.ofValue type s.context asOf value
  /-- What is written is kept under its number. -/
  writes : ∀ save, s.save? = some save → ∀ (c : Calculation) (r r' : Repository),
    save c r = (.ok (), r') → r.save? c = some r'
  /-- Where the repository breaks off it is as before. -/
  refuses : ∀ save, s.save? = some save → ∀ (c : Calculation) (r r' : Repository)
    (message : String), save c r = (.error message, r') → r' = r

/-- A repository in memory is faithful, and nothing but the platform keeps its values from being
rendered. -/
theorem Surroundings.isFaithful_plain (store : SeriesStore) (now : Stamp) (keep : Bool)
    (context : Context) : (plain store now keep context).IsFaithful where
  renders _ _ _ := rfl
  writes save hsave c r r' hwrite := by
    cases keep with
    | false => cases hsave
    | true =>
      cases hsave
      cases hsaved : r.save? c <;> simp [hsaved] at hwrite
      rw [hwrite]
  refuses save hsave c r r' message hwrite := by
    cases keep with
    | false => cases hsave
    | true =>
      cases hsave
      cases hsaved : r.save? c <;> simp [hsaved] at hwrite
      exact hwrite.2.symm

/-- A calculation that the repository wrote is found under its number, and without that entry the
repository is what it was. -/
theorem Repository.save?_frame {r r' : Repository} {c : Calculation} (h : r.save? c = some r') :
    ∃ id, c.id = some id ∧ r'.get? id = some c ∧ r'.delete id = r.delete id := by
  cases hid : c.id with
  | none => simp [save?, hid] at h
  | some id =>
    obtain rfl : r.replaced id c = r' := by
      rw [← getD_save? hid, h, Option.getD_some]
    exact ⟨id, rfl, by rw [get?_replaced, if_pos rfl], delete_replaced⟩

/-- What follows when a value was found leaves the repository as it was and breaks off, or keeps
the calculation that it gives back. -/
theorem concluding_atomic {s : Surroundings} (hs : s.IsFaithful) (c : Calculation) (value : Value)
    (asOf : Option Date) (dependencies : List String) (l : Ledger) :
    match on (concluding s c value asOf dependencies) l with
    | (.error raised, after) => (∃ e, raised = .escaping e) ∧ after.repository = l.repository
    | (.ok r, after) => r.state = .succeeded ∧ ∃ now payload, s.clock = .ok now ∧
        r.payload s.context = .ok payload ∧
        r.calculation = { c with
          dependencies := dependencies, lastRun := some now, lastResult := payload } ∧
        match s.save?, c.id with
        | some _, some id => after.repository.get? id = some r.calculation ∧
          after.repository.delete id = l.repository.delete id
        | _, _ => after.repository = l.repository := by
  have hconcludes := concludes_concluding s c value asOf dependencies l
  generalize on (concluding s c value asOf dependencies) l = p at hconcludes ⊢
  cases hconcludes with
  | unrendered render => exact ⟨⟨_, rfl⟩, rfl⟩
  | untimed clock => exact ⟨⟨_, rfl⟩, rfl⟩
  | unwritten has breaks => exact ⟨⟨_, rfl⟩, hs.refuses _ has _ _ _ _ breaks⟩
  | @written save has now lastResult r render clock writes =>
    rw [hs.renders] at render
    obtain ⟨id, hid, hget, hdelete⟩ := Repository.save?_frame (hs.writes save has _ _ _ writes)
    have hid : c.id = some id := hid
    refine ⟨rfl, now, lastResult, clock, render, rfl, ?_⟩
    simp only [has, hid]
    exact ⟨hget, hdelete⟩
  | @unkept keepsNot now lastResult render clock =>
    rw [hs.renders] at render
    refine ⟨rfl, now, lastResult, clock, render, rfl, ?_⟩
    split
    · next save id has hid => exact absurd ⟨by simp [has], by simp [hid]⟩ keepsNot
    · rfl

/-- A run changes all that it has to change or nothing, in whatever step the store, the rendering,
the clock or the repository break off. If anything escapes from it then the repository is what it
was. If it fails then so is the repository, and the failure is told with the calculation as it
came, an error, its stage and a payload in every context. If it succeeds then the calculation has
the dependencies of its formula, the time of the clock and a new result, which is the payload of
the outcome, and is the same otherwise. A calculation with a number is kept under that number, and
without that entry the repository is what it was; one without a number is not kept. Where nothing
but the store and the platform break off the run in steps is the run in one go. -/
theorem executing_atomic :
    (∀ s : Surroundings, s.IsFaithful → ∀ (c : Calculation) (l : Ledger),
      match on (executing s c) l with
      | (.error raised, after) =>
        (∃ e, raised = .escaping e) ∧ after.repository = l.repository
      | (.ok r, after) =>
        (r.state = .failed ∧ after.repository = l.repository ∧ r.calculation = c ∧
          ∃ e stage payload, r.error = some e ∧ r.failedStage = some stage ∧
            (ErrorReport.ofError e).payload? = .ok payload ∧
            ∀ context, r.payload context = .ok payload) ∨
        (r.state = .succeeded ∧ ∃ tree now payload, Formula.read c.formula = .ok tree ∧
          s.clock = .ok now ∧ r.payload s.context = .ok payload ∧
          r.calculation = { c with
            dependencies := tree.dependencies, lastRun := some now, lastResult := payload } ∧
          match s.save?, c.id with
          | some _, some id => after.repository.get? id = some r.calculation ∧
            after.repository.delete id = l.repository.delete id
          | _, _ => after.repository = l.repository)) ∧
    ∀ (store : SeriesStore) (now : Stamp) (keep : Bool) (context : Context),
      (Surroundings.plain store now keep context).IsFaithful ∧
      ∀ (c : Calculation) (l : Ledger),
        let execution := c.execute store now l.repository keep context
        (on (executing (.plain store now keep context) c) l).1 =
            execution.result.mapError Raised.escaping ∧
          (on (executing (.plain store now keep context) c) l).2.repository =
            execution.repository := by
  constructor
  · intro s hs c l
    obtain ⟨series, -, -, hexecuting⟩ := on_executing s c
    rw [hexecuting l]
    cases hending : (Run.ofFormula s.store c.outputForm s.context c.formula).ending with
    | escaped e => exact ⟨⟨e, rfl⟩, rfl⟩
    | failed stage e =>
      obtain ⟨payload, hreport, hpayload⟩ := Calculation.payload_of_failure c stage e
      exact .inl ⟨rfl, rfl, rfl, e, stage, payload, rfl, rfl, hreport, hpayload⟩
    | succeeded value asOf dependencies =>
      obtain ⟨tree, hread, rfl⟩ := Run.read_of_succeeded hending
      dsimp only
      -- From here on the repository is still the one that there was when the run began.
      have hconcluding := concluding_atomic hs c value asOf tree.dependencies
        (l.record (.started :: (deliveries series ++ [.timed])))
      generalize on (concluding s c value asOf tree.dependencies)
        (l.record (.started :: (deliveries series ++ [.timed]))) = p at hconcluding ⊢
      rcases p with ⟨raised | r, after⟩
      · exact hconcluding
      · obtain ⟨hstate, now, payload, hclock, hpayload, hcalculation, hkept⟩ := hconcluding
        exact .inr ⟨hstate, tree, now, payload, hread, hclock, hpayload, hcalculation, hkept⟩
  · intro store now keep context
    refine ⟨Surroundings.isFaithful_plain store now keep context, fun c l => ?_⟩
    obtain ⟨acts, hacts, -⟩ := on_executing_plain store now keep context c l
    simp only [hacts, and_self]

/-- Where nothing breaks off but the repository, which is closed. -/
def closed : Surroundings := { calm with save? := some fun _ r => (.error "closed", r) }

/-- A repository that is closed keeps nothing. -/
theorem isFaithful_closed : closed.IsFaithful where
  renders _ _ _ := rfl
  writes save hsave c r r' hwrite := by
    cases hsave
    cases hwrite
  refuses save hsave c r r' message hwrite := by
    cases hsave
    cases hwrite
    rfl

/-- A run whose result cannot be written leaves the repository as it was, and one whose result can
be written is found there. -/
theorem executing_atomic_closed :
    let l : Ledger := ⟨[], ⟨[(1, kept)], 2⟩⟩
    ((on (executing closed kept) l).1 = .error (.escaping (.saving "closed")) ∧
      (on (executing closed kept) l).2.repository = l.repository) ∧
    ∃ o, (on (executing calm kept) l).1 = .ok o ∧ o.calculation.dependencies = ["x"] ∧
      (on (executing calm kept) l).2.repository.get? 1 = some o.calculation := by
  intro l
  obtain ⟨hatomic, hplain⟩ := executing_atomic
  constructor
  · have hescape : (on (executing closed kept) l).1 = .error (.escaping (.saving "closed")) := rfl
    have hunchanged := hatomic closed isFaithful_closed kept l
    generalize on (executing closed kept) l = p at hescape hunchanged ⊢
    rcases p with ⟨result, after⟩
    obtain rfl : result = .error (.escaping (.saving "closed")) := hescape
    exact ⟨rfl, hunchanged.2⟩
  · have hfaithful := (hplain Calculation.emptySeries ⟨⟨0⟩, 43200, 0, none⟩ true {}).1
    have hkept := hatomic calm hfaithful kept l
    have hsucceeds : ∃ o, (on (executing calm kept) l).1 = .ok o ∧ o.state = .succeeded ∧
        o.calculation.dependencies = ["x"] := ⟨_, rfl, rfl, rfl⟩
    generalize on (executing calm kept) l = p at hsucceeds hkept ⊢
    rcases p with ⟨result, after⟩
    obtain ⟨o, hresult, hstate, hdependencies⟩ := hsucceeds
    obtain rfl : result = .ok o := hresult
    rcases hkept with ⟨hfailed, -⟩ | ⟨-, tree, now, payload, -, -, -, -, hget, -⟩
    · cases hfailed.symm.trans hstate
    · exact ⟨o, rfl, hdependencies, hget⟩

end IndicatorFormula
