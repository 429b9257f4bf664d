import IndicatorFormula.Proofs.Calculation.Catalog

/-!
# Runs between other commands

A run works on the calculation as it was when it was read, and other commands may come between
the two. Of the repository the run touches the entry of that calculation and no other, and
what it writes there is the calculation as it was read, with what the run found out: the last
writer wins. A definition that has not been changed in between stays as it is.
-/

namespace IndicatorFormula

/-- The calculation with what runs found out of another. -/
def Calculation.withFindings (c found : Calculation) : Calculation :=
  { c with
    dependencies := found.dependencies
    lastRun := found.lastRun
    lastResult := found.lastResult }

/-- A run that succeeds writes the calculation as it was read, with what it found out. -/
theorem Execution.Ends.succeeded_eq {now : Stamp} {before after : Repository}
    {context : Context} {c : Calculation} {id : Int} {o : Outcome}
    (h : Ends now before true context c (.ok o) after) (hid : c.id = some id)
    (hsucceeded : o.state = .succeeded) :
    o.calculation = c.withFindings o.calculation ∧ after = before.replaced id o.calculation := by
  cases h with
  | failed stage e unread => cases hsucceeded
  | succeeded tree value asOf read renders => exact ⟨rfl, Repository.keeping_eq_replaced hid⟩

namespace Catalog

variable {r : Repository} {c d : Calculation} {id : Int}

/-- The command is about the definition of that number. -/
def Command.Redefines (id : Int) : Command → Prop
  | update id' _ => id' = id
  | delete id' => id' = id
  | _ => False

/-- A command about other definitions changes at most what runs found out. -/
theorem apply_keeps_definition (hr : r.IsCatalog) {command : Command}
    (hother : ¬command.Redefines id) (hd : r.get? id = some d) :
    ∃ d', (command.apply r).get? id = some d' ∧ d'.withFindings d = d := by
  have hkept : ∃ d', r.get? id = some d' ∧ d'.withFindings d = d := ⟨d, hd, rfl⟩
  cases command with
  | create name formula outputForm description =>
    simp only [Command.apply]
    cases hok : create r name formula outputForm description with
    | error e => exact hkept
    | ok result =>
      obtain ⟨body, hadd, -, -⟩ := create_eq_ok hok
      obtain rfl : result = r.add body := hadd
      have hne : id ≠ r.nextId := Int.ne_of_lt (hr.get?_eq hd).2.1
      have hget : (r.add body).2.get? id = r.get? id := by
        simp only [Repository.get?, Repository.add, Table.find?_put, hne, if_false]
      simp only [settled, hget]
      exact hkept
  | update id' changes =>
    simp only [Command.apply]
    cases hok : update r id' changes with
    | error e => exact hkept
    | ok result =>
      have hne : id ≠ id' := fun h => hother h.symm
      simp only [settled, (update_eq_ok hr hok).1, Repository.get?_replaced, hne, if_false]
      exact hkept
  | delete id' =>
    simp only [Command.apply]
    cases hok : Catalog.delete r id' with
    | error e => exact hkept
    | ok r' =>
      have hne : id ≠ id' := fun h => hother h.symm
      simp only [(delete_eq_ok_iff.mp hok).1, Repository.get?_delete, hne, if_false]
      exact hkept
  | run id' store now context =>
    simp only [Command.apply]
    cases hok : get r id' with
    | error e => exact hkept
    | ok c =>
      have hc := get_eq_ok_iff.mp hok
      have hends := Calculation.execute_ends store now r true context c
      rcases hends.kept_or_replaced (hr.get?_eq hc).1 with hsame | ⟨tree, lastResult, -, hnew⟩
      · simp only [hsame]
        exact hkept
      · simp only [hnew, Repository.get?_replaced]
        by_cases hown : id = id'
        · obtain rfl : c = d := by
            rw [← hown, hd, Option.some.injEq] at hc
            exact hc.symm
          exact ⟨c.updated now tree.dependencies lastResult, if_pos hown, rfl⟩
        · simp only [hown, if_false]
          exact hkept

/-- Commands about other definitions change at most what runs found out. -/
theorem replay_keeps_definition (hr : r.IsCatalog) {commands : List Command}
    (hother : ∀ command ∈ commands, ¬command.Redefines id) (hd : r.get? id = some d) :
    ∃ d', (replay r commands).get? id = some d' ∧ d'.withFindings d = d := by
  induction commands generalizing r d with
  | nil => exact ⟨d, hd, rfl⟩
  | cons command rest ih =>
    obtain ⟨hcommand, hrest⟩ := List.forall_mem_cons.mp hother
    obtain ⟨d₁, hd₁, hsame₁⟩ := apply_keeps_definition hr hcommand hd
    obtain ⟨d₂, hd₂, hsame₂⟩ := ih ((change_apply hr command).isCatalog hr) hrest hd₁
    refine ⟨d₂, hd₂, ?_⟩
    calc d₂.withFindings d = (d₂.withFindings d₁).withFindings d := rfl
      _ = d₁.withFindings d := by rw [hsame₂]
      _ = d := hsame₁

theorem slugs_replaced (hd : r.get? id = some d) (hslug : c.slug = d.slug) :
    (r.replaced id c).slugs = r.slugs :=
  Table.map_put hd hslug

/-- A calculation is read, other commands follow, and then the calculation is run as it was
read. If the run succeeds then nothing but the entry of that calculation is changed. If the
calculation is still kept then what is kept after the run is the calculation as it was read, with
what the run found out. So where the definition that is kept is the one that was read the run
changes at most what runs find out, and slugs are what they were. That is the case, and slugs
differ, if the commands in between are not about that definition. -/
theorem execute_last_writer_wins (hc : r.get? id = some c) (hid : c.id = some id)
    (between : List Command) (store : SeriesStore) (now : Stamp) (context : Context) {o : Outcome}
    (hrun : (c.execute store now (replay r between) true context).result = .ok o)
    (hsucceeded : o.state = .succeeded) :
    let current := replay r between
    let after := (c.execute store now current true context).repository
    after.delete id = current.delete id ∧
      (∀ d, current.get? id = some d →
        after.get? id = some (c.withFindings o.calculation) ∧
          (d.withFindings c = c →
            after.get? id = some (d.withFindings o.calculation) ∧ after.slugs = current.slugs)) ∧
      (r.IsCatalog → (∀ command ∈ between, ¬command.Redefines id) →
        (∃ d, current.get? id = some d ∧ d.withFindings c = c) ∧ after.slugs.Nodup) := by
  intro current after
  have hends := Calculation.execute_ends store now current true context c
  rw [hrun] at hends
  obtain ⟨hfound, hafter⟩ := hends.succeeded_eq hid hsucceeded
  have hafter : after = current.replaced id o.calculation := hafter
  have hslugs (d : Calculation) (hd : current.get? id = some d) (hsame : d.withFindings c = c) :
      after.slugs = current.slugs := by
    rw [hafter]
    apply slugs_replaced hd
    rw [hfound, ← hsame]
    rfl
  refine ⟨?_, ?_, ?_⟩
  · rw [hafter, Repository.delete_replaced]
  · intro d hd
    have hget : after.get? id = some (c.withFindings o.calculation) := by
      rw [hafter, Repository.get?_replaced, if_pos rfl, ← hfound]
    refine ⟨hget, ?_⟩
    intro hsame
    refine ⟨?_, hslugs d hd hsame⟩
    calc after.get? id = some (c.withFindings o.calculation) := hget
      _ = some ((d.withFindings c).withFindings o.calculation) := by rw [hsame]
      _ = some (d.withFindings o.calculation) := rfl
  · intro hr hother
    obtain ⟨d, hd, hsame⟩ := replay_keeps_definition hr hother hc
    refine ⟨⟨d, hd, hsame⟩, ?_⟩
    rw [hslugs d hd hsame]
    exact (isCatalog_replay hr between).nodup_slugs

/-- The history of a catalog with one calculation. -/
def defining : List Command := [.create "A" "x" "series" ""]

/-- That calculation as it is read then. -/
def held : Calculation :=
  { id := some 1, name := "A", slug := "a", formula := "x", outputForm := .series,
    description := "", dependencies := ["x"], lastRun := none, lastResult := .null }

/-- A moment at noon. -/
def noon : Stamp := ⟨⟨0⟩, 43200, 0, none⟩

/-- What is rendered of a series that has no points. -/
def nothing : Document := .record [("output_type", .text "series"), ("value", .list [])]

/-- Another calculation is defined before the run: both are kept. -/
theorem execute_last_writer_wins_beside :
    let current := replay (replay {} defining) [.create "B" "y" "single" ""]
    ∃ o, (held.execute Calculation.emptySeries noon current true {}).result = .ok o ∧
      let after := (held.execute Calculation.emptySeries noon current true {}).repository
      after.get? 1 = some (held.withFindings o.calculation) ∧ after.slugs = ["a", "b"] ∧
        after.slugs.Nodup := by
  intro current
  have hread : (replay {} defining).get? 1 = some held := by rfl
  have hcurrent : current.get? 1 = some held := by rfl
  have hslugs : current.slugs = ["a", "b"] := by rfl
  have hrun : (held.execute Calculation.emptySeries noon current true {}).result =
      .ok (.ofSuccess (held.updated noon ["x"] nothing) (.series []) none) := by rfl
  obtain ⟨-, hkept, hcatalog⟩ := execute_last_writer_wins hread rfl
    [.create "B" "y" "single" ""] Calculation.emptySeries noon {} hrun rfl
  obtain ⟨hget, hdefinition⟩ := hkept held hcurrent
  have hsame := (hdefinition rfl).2
  have hnodup := (hcatalog (isCatalog_replay Repository.isCatalog_empty defining)
    (by simp [Command.Redefines])).2
  exact ⟨_, hrun, hget, hsame.trans hslugs, hnodup⟩

/-- A run of what was read before a change of the name brings the old name back. -/
theorem execute_undoes_update :
    let current := replay (replay {} defining) [.update 1 { name := some "B" }]
    let execution := held.execute Calculation.emptySeries noon current true {}
    (replay {} defining).get? 1 = some held ∧
      (∃ o, execution.result = .ok o ∧ o.state = .succeeded) ∧
      (current.get? 1).map (fun c => (c.name, c.slug)) = some ("B", "b") ∧
      (execution.repository.get? 1).map (fun c => (c.name, c.slug)) = some ("A", "a") :=
  ⟨rfl, ⟨_, rfl, rfl⟩, rfl, rfl⟩

end Catalog

end IndicatorFormula
