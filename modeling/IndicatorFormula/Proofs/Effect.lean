import Mathlib

/-!
# Programs with a state

A program changes a state step by step and may break off. What it has changed by then stays
changed: nothing is taken back when it breaks off.
-/

namespace IndicatorFormula

/-- A program over a state `σ` that breaks off with an `ε`. -/
abbrev Effect (σ ε α : Type) := ExceptT ε (StateM σ) α

namespace Effect

variable {σ ε α β : Type} {s : σ}

/-- What comes out of a program that starts in a state, and the state that it leaves. -/
def on (p : Effect σ ε α) (s : σ) : Except ε α × σ := (p.run.run s).run

@[simp]
theorem on_pure (a : α) : on (pure a : Effect σ ε α) s = (.ok a, s) := rfl

@[simp]
theorem on_throw (e : ε) : on (throw e : Effect σ ε α) s = (.error e, s) := rfl

@[simp]
theorem on_get : on (get : Effect σ ε σ) s = (.ok s, s) := rfl

@[simp]
theorem on_set (s' : σ) : on (set s' : Effect σ ε PUnit) s = (.ok ⟨⟩, s') := rfl

/-- A program followed by another goes on from the state that it leaves. -/
@[simp]
theorem on_bind (p : Effect σ ε α) (f : α → Effect σ ε β) : on (p >>= f) s =
    match on p s with
    | (.ok a, s') => on (f a) s'
    | (.error e, s') => (.error e, s') := by
  simp only [on, ExceptT.run_bind, StateT.run_bind]
  cases p.run.run s with
  | mk result s' => cases result <;> rfl

/-- A mapped program leaves the same state. -/
@[simp]
theorem on_map (p : Effect σ ε α) (f : α → β) : on (f <$> p) s =
    match on p s with
    | (.ok a, s') => (.ok (f a), s')
    | (.error e, s') => (.error e, s') := by
  rw [map_eq_pure_bind, on_bind]
  rfl

/-- A handler goes on from what the program has left. -/
@[simp]
theorem on_tryCatch (p : Effect σ ε α) (handler : ε → Effect σ ε α) :
    on (tryCatch p handler) s =
      match on p s with
      | (.ok a, s') => (.ok a, s')
      | (.error e, s') => on (handler e) s' := by
  simp only [on, tryCatch, tryCatchThe, MonadExceptOf.tryCatch, ExceptT.tryCatch, ExceptT.run,
    StateT.run, ExceptT.mk, bind, StateT.bind, Id.run, pure]
  rcases p s with ⟨result, s'⟩
  cases result <;> rfl

/-- What is done in the end is done in any case; only if it breaks off itself does it change what
comes out. -/
@[simp]
theorem on_tryFinally (p : Effect σ ε α) (cleanup : Effect σ ε β) :
    on (tryFinally p cleanup) s =
      match on p s with
      | (result, s') => match on cleanup s' with
        | (.ok _, s'') => (result, s'')
        | (.error e, s'') => (.error e, s'') := by
  simp only [on, tryFinally, tryFinally', ExceptT.run, StateT.run, Functor.map, ExceptT.map,
    ExceptT.mk, bind, StateT.bind, Id.run, pure]
  rcases p s with ⟨result, s'⟩
  cases result with
  | ok a =>
    dsimp only
    rcases cleanup s' with ⟨result', s''⟩
    cases result' <;> rfl
  | error e =>
    dsimp only
    rcases cleanup s' with ⟨result', s''⟩
    cases result' <;> rfl

end Effect

end IndicatorFormula
