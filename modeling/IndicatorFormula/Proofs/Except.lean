import Mathlib
import IndicatorFormula.Table

/-!
# Outcomes of chained steps

A chain of steps gives a value just when each of its steps does, and fails with the error of
the first step that fails.
-/

namespace IndicatorFormula.Except

variable {ε β γ : Type}

/-- A sequence succeeds just when both parts do. -/
theorem bind_eq_ok {x : Except ε β} {f : β → Except ε γ} {c : γ} :
    (x >>= f) = .ok c ↔ ∃ b, x = .ok b ∧ f b = .ok c := by
  cases x with
  | error e => simp [bind, Except.bind]
  | ok b => simp [bind, Except.bind]

/-- A sequence fails just when one of its parts does. -/
theorem bind_eq_error {x : Except ε β} {f : β → Except ε γ} {e : ε} :
    (x >>= f) = .error e ↔ x = .error e ∨ ∃ b, x = .ok b ∧ f b = .error e := by
  cases x with
  | error e' => simp [bind, Except.bind]
  | ok b => simp [bind, Except.bind]

/-- Steps that agree on what comes before give one chain. -/
theorem bind_congr {x : Except ε β} {f g : β → Except ε γ} (h : ∀ b, x = .ok b → f b = g b) :
    (x >>= f) = x >>= g := by
  cases x with
  | error e => rfl
  | ok b => exact h b rfl

/-- A mapped computation succeeds just when the computation does. -/
theorem map_eq_ok {x : Except ε β} {f : β → γ} {c : γ} :
    x.map f = .ok c ↔ ∃ b, x = .ok b ∧ f b = c := by
  cases x with
  | error e => simp [Except.map]
  | ok b => simp [Except.map]

/-- A mapped computation fails as the computation does. -/
theorem map_eq_error {x : Except ε β} {f : β → γ} {e : ε} :
    x.map f = .error e ↔ x = .error e := by
  cases x with
  | error e' => simp [Except.map]
  | ok b => simp [Except.map]

/-- A computation whose failure is mapped fails just when it does. -/
theorem mapError_eq_error {ε' : Type} {x : Except ε β} {f : ε → ε'} {e' : ε'} :
    x.mapError f = .error e' ↔ ∃ e, x = .error e ∧ f e = e' := by
  cases x with
  | error e => simp [Except.mapError]
  | ok b => simp [Except.mapError]

/-- A computation whose failure is mapped succeeds just when it does. -/
theorem mapError_eq_ok {ε' : Type} {x : Except ε β} {f : ε → ε'} {b : β} :
    x.mapError f = .ok b ↔ x = .ok b := by
  cases x with
  | error e => simp [Except.mapError]
  | ok b' => simp [Except.mapError]

/-- A row of steps that gives values has one for each step. -/
theorem mem_of_mapM_eq_ok {f : β → Except ε γ} {xs : List β} {ys : List γ}
    (h : xs.mapM f = .ok ys) : ∀ x ∈ xs, ∃ y ∈ ys, f x = .ok y := by
  induction xs generalizing ys with
  | nil => simp
  | cons x xs ih =>
    rw [List.mapM_cons] at h
    obtain ⟨y, hy, h⟩ := bind_eq_ok.mp h
    obtain ⟨ys, hys, h⟩ := bind_eq_ok.mp h
    cases h
    refine List.forall_mem_cons.mpr ⟨⟨y, List.mem_cons_self .., hy⟩, ?_⟩
    intro x' hx'
    obtain ⟨y', hy', hfx'⟩ := ih hys x' hx'
    exact ⟨y', List.mem_cons_of_mem y hy', hfx'⟩

/-- A row of steps that gives values has given one at each step. -/
theorem ok_of_mapM_eq_ok {f : β → Except ε γ} {xs : List β} {ys : List γ}
    (h : xs.mapM f = .ok ys) : ∀ x ∈ xs, ∃ y, f x = .ok y := by
  intro x hx
  obtain ⟨y, -, hy⟩ := mem_of_mapM_eq_ok h x hx
  exact ⟨y, hy⟩

/-- A row of steps that fails has failed at one of them. -/
theorem error_of_mapM_eq_error {f : β → Except ε γ} {xs : List β} {e : ε}
    (h : xs.mapM f = .error e) : ∃ x ∈ xs, f x = .error e := by
  induction xs with
  | nil => simp [pure, Except.pure] at h
  | cons x xs ih =>
    rw [List.mapM_cons] at h
    rcases bind_eq_error.mp h with h | ⟨y, -, h⟩
    · exact ⟨x, List.mem_cons_self .., h⟩
    · rcases bind_eq_error.mp h with h | ⟨ys, -, h⟩
      · obtain ⟨x', hx', he⟩ := ih h
        exact ⟨x', List.mem_cons_of_mem _ hx', he⟩
      · simp [pure, Except.pure] at h

/-- A row of steps each of which gives a value gives values. -/
theorem exists_mapM_eq_ok {f : β → Except ε γ} {xs : List β} (h : ∀ x ∈ xs, ∃ y, f x = .ok y) :
    ∃ ys, xs.mapM f = .ok ys := by
  cases hrow : xs.mapM f with
  | ok ys => exact ⟨ys, rfl⟩
  | error e =>
    obtain ⟨x, hx, he⟩ := error_of_mapM_eq_error hrow
    obtain ⟨y, hy⟩ := h x hx
    rw [he] at hy
    cases hy

/-- Steps that agree one by one agree as a row. -/
theorem mapM_congr {f g : β → Except ε γ} {xs : List β} (h : ∀ x ∈ xs, f x = g x) :
    xs.mapM f = xs.mapM g := by
  induction xs with
  | nil => rfl
  | cons x xs ih =>
    obtain ⟨hx, hxs⟩ := List.forall_mem_cons.mp h
    rw [List.mapM_cons, List.mapM_cons, hx, ih hxs]

/-- An outcome is a value or an error of an allowed kind. -/
def FailsWith (allowed : ε → Prop) (x : Except ε β) : Prop := ∀ e, x = .error e → allowed e

section FailsWith

variable {ε' : Type} {allowed : ε → Prop} {x : Except ε β}

theorem failsWith_ok {b : β} : FailsWith allowed (.ok b : Except ε β) := by
  rintro e ⟨⟩

theorem failsWith_error {e : ε} (h : allowed e) : FailsWith allowed (.error e : Except ε β) := by
  rintro e' ⟨⟩
  exact h

/-- A choice fails only as its branches may. -/
theorem failsWith_ite {c : Prop} [Decidable c] {y : Except ε β} (hx : FailsWith allowed x)
    (hy : FailsWith allowed y) : FailsWith allowed (if c then x else y) := by
  split
  · exact hx
  · exact hy

theorem FailsWith.mono {allowed' : ε → Prop} (h : FailsWith allowed x)
    (hallowed : ∀ e, allowed e → allowed' e) : FailsWith allowed' x :=
  fun e he => hallowed e (h e he)

/-- A sequence fails only as its parts may. -/
theorem FailsWith.bind {f : β → Except ε γ} (h : FailsWith allowed x)
    (hnext : ∀ b, x = .ok b → FailsWith allowed (f b)) : FailsWith allowed (x >>= f) := by
  intro e he
  rcases bind_eq_error.mp he with he | ⟨b, hb, he⟩
  · exact h e he
  · exact hnext b hb e he

theorem FailsWith.map {f : β → γ} (h : FailsWith allowed x) : FailsWith allowed (x.map f) :=
  fun e he => h e (map_eq_error.mp he)

/-- Mapping the failure maps what is allowed. -/
theorem FailsWith.mapError {f : ε → ε'} {allowed' : ε' → Prop} (h : FailsWith allowed x)
    (hallowed : ∀ e, allowed e → allowed' (f e)) : FailsWith allowed' (x.mapError f) := by
  intro e' he'
  obtain ⟨e, he, rfl⟩ := mapError_eq_error.mp he'
  exact hallowed e (h e he)

/-- A row of steps fails as one of the steps does. -/
theorem failsWith_mapM {f : β → Except ε γ} {xs : List β}
    (h : ∀ x ∈ xs, FailsWith allowed (f x)) : FailsWith allowed (xs.mapM f) := by
  intro e he
  obtain ⟨x, hx, he⟩ := error_of_mapM_eq_error he
  exact h x hx e he

end FailsWith

/-- Where the first chain gives a value the second gives one that belongs to it. -/
def Follows {ε ε' β γ : Type} (fits : β → γ → Prop) (x : Except ε β) (y : Except ε' γ) : Prop :=
  ∀ b, x = .ok b → ∃ c, y = .ok c ∧ fits b c

variable {ε' β' γ' : Type} {fits : β → γ → Prop} {fits' : β' → γ' → Prop} {x : Except ε β}
  {y : Except ε' γ}

/-- Two results that fit follow one another. -/
theorem follows_ok {b : β} {c : γ} (h : fits b c) :
    Follows fits (.ok b : Except ε β) (.ok c : Except ε' γ) := by
  rintro b' ⟨⟩
  exact ⟨c, rfl, h⟩

theorem follows_self (x : Except ε β) : Follows (fun b c => c = b) x x := fun b hb => ⟨b, hb, rfl⟩

theorem follows_error {e : ε} : Follows fits (.error e) y := by
  rintro b ⟨⟩

/-- What follows under a relation follows under a weaker one. -/
theorem Follows.mono {fits'' : β → γ → Prop} (h : Follows fits x y)
    (hfits : ∀ b c, fits b c → fits'' b c) : Follows fits'' x y := by
  intro b hb
  obtain ⟨c, hc, hbc⟩ := h b hb
  exact ⟨c, hc, hfits b c hbc⟩

/-- Sequences follow one another if their parts do. -/
theorem Follows.bind {f : β → Except ε β'} {g : γ → Except ε' γ'} (h : Follows fits x y)
    (hnext : ∀ b c, fits b c → Follows fits' (f b) (g c)) :
    Follows fits' (x >>= f) (y >>= g) := by
  intro b' hb'
  obtain ⟨b, hb, hb'⟩ := bind_eq_ok.mp hb'
  obtain ⟨c, hc, hfits⟩ := h b hb
  obtain ⟨c', hc', hfits'⟩ := hnext b c hfits b' hb'
  exact ⟨c', bind_eq_ok.mpr ⟨c, hc, hc'⟩, hfits'⟩

/-- Mapped computations follow one another if the functions keep the relation. -/
theorem Follows.map {f : β → β'} {g : γ → γ'} (h : Follows fits x y)
    (hnext : ∀ b c, fits b c → fits' (f b) (g c)) : Follows fits' (x.map f) (y.map g) := by
  intro b' hb'
  obtain ⟨b, hb, rfl⟩ := map_eq_ok.mp hb'
  obtain ⟨c, hc, hfits⟩ := h b hb
  exact ⟨g c, map_eq_ok.mpr ⟨c, hc, rfl⟩, hnext b c hfits⟩

/-- Mapping failures does not matter for following. -/
theorem Follows.mapError {δ δ' : Type} {f : ε → δ} {g : ε' → δ'} (h : Follows fits x y) :
    Follows fits (x.mapError f) (y.mapError g) := by
  intro b hb
  obtain ⟨c, hc, hfits⟩ := h b (mapError_eq_ok.mp hb)
  exact ⟨c, mapError_eq_ok.mpr hc, hfits⟩

/-- Steps that follow one by one follow as a row. -/
theorem follows_mapM {α : Type} {f : α → Except ε β} {g : α → Except ε' γ} {xs : List α}
    (h : ∀ x ∈ xs, Follows fits (f x) (g x)) :
    Follows (List.Forall₂ fits) (xs.mapM f) (xs.mapM g) := by
  induction xs with
  | nil => exact follows_ok .nil
  | cons x xs ih =>
    obtain ⟨hx, hxs⟩ := List.forall_mem_cons.mp h
    rw [List.mapM_cons, List.mapM_cons]
    refine hx.bind fun b c hfits => (ih hxs).bind fun bs cs hrest => ?_
    exact follows_ok (.cons hfits hrest)

/-- Either both chains give values, which belong together, or both fail with errors that do. -/
inductive Parallel {ε ε' β γ : Type} (errors : ε → ε' → Prop) (values : β → γ → Prop) :
    Except ε β → Except ε' γ → Prop
  /-- Both give a value. -/
  | ok {b : β} {c : γ} (fit : values b c) : Parallel errors values (.ok b) (.ok c)
  /-- Both fail. -/
  | error {e : ε} {e' : ε'} (fit : errors e e') : Parallel errors values (.error e) (.error e')

section Parallel

variable {errors : ε → ε' → Prop} {values : β → γ → Prop} {values' : β' → γ' → Prop}
  {x : Except ε β} {y : Except ε' γ}

/-- A computation is parallel to itself. -/
theorem parallel_self (x : Except ε β) : Parallel Eq Eq x x := by
  cases x with
  | ok b => exact .ok rfl
  | error e => exact .error rfl

/-- What is parallel under two relations is parallel under weaker ones. -/
theorem Parallel.mono {errors' : ε → ε' → Prop} {values' : β → γ → Prop}
    (h : Parallel errors values x y) (herrors : ∀ e e', errors e e' → errors' e e')
    (hvalues : ∀ b c, values b c → values' b c) : Parallel errors' values' x y := by
  cases h with
  | ok fit => exact .ok (hvalues _ _ fit)
  | error fit => exact .error (herrors _ _ fit)

/-- Sequences are parallel if their parts are. -/
theorem Parallel.bind {f : β → Except ε β'} {g : γ → Except ε' γ'}
    (h : Parallel errors values x y)
    (hnext : ∀ b c, values b c → Parallel errors values' (f b) (g c)) :
    Parallel errors values' (x >>= f) (y >>= g) := by
  cases h with
  | ok fit => exact hnext _ _ fit
  | error fit => exact .error fit

/-- Mapped computations are parallel if the functions keep the relation. -/
theorem Parallel.map {f : β → β'} {g : γ → γ'} (h : Parallel errors values x y)
    (hnext : ∀ b c, values b c → values' (f b) (g c)) :
    Parallel errors values' (x.map f) (y.map g) := by
  cases h with
  | ok fit => exact .ok (hnext _ _ fit)
  | error fit => exact .error fit

/-- Computations whose failures are mapped are parallel if the functions keep the relation. -/
theorem Parallel.mapError {δ δ' : Type} {errors' : δ → δ' → Prop} {f : ε → δ} {g : ε' → δ'}
    (h : Parallel errors values x y) (herrors : ∀ e e', errors e e' → errors' (f e) (g e')) :
    Parallel errors' values (x.mapError f) (y.mapError g) := by
  cases h with
  | ok fit => exact .ok fit
  | error fit => exact .error (herrors _ _ fit)

/-- Steps that end alike one by one do so as a row. -/
theorem parallel_mapM {α : Type} {f g : α → Except ε β} {errors : ε → ε → Prop} {xs : List α}
    (h : ∀ x ∈ xs, Parallel errors Eq (f x) (g x)) :
    Parallel errors Eq (xs.mapM f) (xs.mapM g) := by
  induction xs with
  | nil => exact .ok rfl
  | cons x xs ih =>
    obtain ⟨hx, hxs⟩ := List.forall_mem_cons.mp h
    rw [List.mapM_cons, List.mapM_cons]
    refine hx.bind fun b c hbc => (ih hxs).bind fun bs cs hrest => ?_
    exact .ok (congrArg₂ List.cons hbc hrest)

end Parallel

end IndicatorFormula.Except
