import IndicatorFormula.Proofs.Except
import IndicatorFormula.Series.Signal
import IndicatorFormula.Series.Window

/-!
# Series that go on

A series goes on after a date if everything that it had up to then stays as it is and what is
new comes later. What is computed of trailing windows goes on in the same way: a value depends
on the points up to its own, so points that come later add values and change none.
-/

namespace IndicatorFormula

theorem Date.not_le {a b : Date} : ¬a ≤ b ↔ b < a := Int.not_le

/-- The second row is the first with more behind it. What is new lies after the date and what
was there does not. -/
def Continued {β : Type} (date : β → Date) (D : Date) (xs ys : List β) : Prop :=
  ∃ more, ys = xs ++ more ∧ (∀ x ∈ xs, date x ≤ D) ∧ ∀ y ∈ more, D < date y

namespace Continued

variable {β γ : Type} {date : β → Date} {date' : γ → Date} {D : Date} {xs ys : List β}

/-- What is continued is a prefix. -/
theorem isPrefix (h : Continued date D xs ys) : xs <+: ys := by
  obtain ⟨more, rfl, -, -⟩ := h
  exact List.prefix_append xs more

theorem length_le (h : Continued date D xs ys) : xs.length ≤ ys.length := h.isPrefix.length_le

/-- The row up to the date is the row that went on. -/
theorem filter_le (h : Continued date D xs ys) : ys.filter (fun y => date y ≤ D) = xs := by
  obtain ⟨more, rfl, hold, hnew⟩ := h
  have hxs : xs.filter (fun x => date x ≤ D) = xs := by
    apply List.filter_eq_self.mpr
    intro x hx
    exact decide_eq_true (hold x hx)
  have hmore : more.filter (fun y => date y ≤ D) = [] := by
    apply List.filter_eq_nil_iff.mpr
    intro y hy hle
    exact Date.not_le.mpr (hnew y hy) (of_decide_eq_true hle)
  rw [List.filter_append, hxs, hmore, List.append_nil]

/-- Rows in date order go on after any date from what lies up to it. -/
theorem of_increasing (h : ys.Pairwise fun a b => date a < date b) :
    Continued date D (ys.filter fun y => date y ≤ D) ys := by
  induction ys with
  | nil => exact ⟨[], rfl, by simp, by simp⟩
  | cons y ys ih =>
    obtain ⟨hy, hys⟩ := List.pairwise_cons.mp h
    by_cases hle : date y ≤ D
    · obtain ⟨more, hmore, hold, hnew⟩ := ih hys
      have hkept : (y :: ys).filter (fun z => date z ≤ D) =
          y :: ys.filter fun z => date z ≤ D := by simp [hle]
      refine ⟨more, ?_, ?_, hnew⟩
      · rw [hkept, List.cons_append, ← hmore]
      · rw [hkept]
        exact List.forall_mem_cons.mpr ⟨hle, hold⟩
    · -- The rest lies behind a date that lies behind the bound.
      have hafter : ∀ z ∈ y :: ys, D < date z := by
        intro z hz
        have hlt := Date.not_le.mp hle
        rcases List.mem_cons.mp hz with rfl | hz
        · exact hlt
        · exact Int.lt_trans hlt (hy z hz)
      have hnil : (y :: ys).filter (fun z => date z ≤ D) = [] := by
        apply List.filter_eq_nil_iff.mpr
        intro z hz hle
        exact Date.not_le.mpr (hafter z hz) (of_decide_eq_true hle)
      rw [hnil]
      exact ⟨y :: ys, rfl, by simp, hafter⟩

/-- What is made of each element goes on, if it is the same for what was there. -/
theorem map {f g : β → γ} (h : Continued date D xs ys)
    (hsame : ∀ x, date x ≤ D → g x = f x) (hdate : ∀ x, date' (g x) = date x) :
    Continued date' D (xs.map f) (ys.map g) := by
  obtain ⟨more, rfl, hold, hnew⟩ := h
  have hxs : xs.map g = xs.map f := List.map_congr_left fun x hx => hsame x (hold x hx)
  refine ⟨more.map g, by rw [List.map_append, hxs], ?_, ?_⟩
  · rw [← hxs]
    intro z hz
    obtain ⟨x, hx, rfl⟩ := List.mem_map.mp hz
    rw [hdate]
    exact hold x hx
  · intro z hz
    obtain ⟨y, hy, rfl⟩ := List.mem_map.mp hz
    rw [hdate]
    exact hnew y hy

/-- Choosing and mapping point by point keeps a continuation. -/
theorem filterMap {f : β → Option γ} (h : Continued date D xs ys)
    (hdate : ∀ x z, f x = some z → date' z = date x) :
    Continued date' D (xs.filterMap f) (ys.filterMap f) := by
  obtain ⟨more, rfl, hold, hnew⟩ := h
  refine ⟨more.filterMap f, List.filterMap_append, ?_, ?_⟩
  · intro z hz
    obtain ⟨x, hx, hfx⟩ := List.mem_filterMap.mp hz
    rw [hdate x z hfx]
    exact hold x hx
  · intro z hz
    obtain ⟨y, hy, hfy⟩ := List.mem_filterMap.mp hz
    rw [hdate y z hfy]
    exact hnew y hy

/-- Filtering keeps a continuation. -/
theorem filter {p : β → Bool} (h : Continued date D xs ys) :
    Continued date D (xs.filter p) (ys.filter p) := by
  obtain ⟨more, rfl, hold, hnew⟩ := h
  refine ⟨more.filter p, List.filter_append .., ?_, ?_⟩
  · intro x hx
    exact hold x (List.mem_filter.mp hx).1
  · intro y hy
    exact hnew y (List.mem_filter.mp hy).1

/-- Dropping points that both have keeps a continuation. -/
theorem drop {n : Nat} (h : Continued date D xs ys) (hn : n ≤ xs.length) :
    Continued date D (xs.drop n) (ys.drop n) := by
  obtain ⟨more, rfl, hold, hnew⟩ := h
  refine ⟨more, List.drop_append_of_le_length hn, ?_, hnew⟩
  intro x hx
  exact hold x (List.mem_of_mem_drop hx)

/-- Elements that have a partner keep it when both rows go on. -/
theorem zip {ws zs : List γ} (h : Continued date D xs ys) (hstart : ws <+: zs)
    (hlength : xs.length ≤ ws.length) :
    Continued (fun p => date p.1) D (xs.zip ws) (ys.zip zs) := by
  obtain ⟨more, rfl, hold, hnew⟩ := h
  obtain ⟨others, rfl⟩ := hstart
  have hws : ws.take xs.length ++ ws.drop xs.length = ws := List.take_append_drop ..
  have htake : xs.length = (ws.take xs.length).length := by
    rw [List.length_take]
    omega
  have hpartners : xs.zip (ws.take xs.length) = xs.zip ws := by
    calc xs.zip (ws.take xs.length)
        = xs.zip (ws.take xs.length) ++ [].zip (ws.drop xs.length) := by simp
      _ = (xs ++ []).zip (ws.take xs.length ++ ws.drop xs.length) := (List.zip_append htake).symm
      _ = xs.zip ws := by rw [List.append_nil, hws]
  refine ⟨more.zip (ws.drop xs.length ++ others), ?_, ?_, ?_⟩
  · rw [← hpartners, ← List.zip_append htake, ← List.append_assoc, hws]
  · intro p hp
    exact hold p.1 (List.of_mem_zip hp).1
  · intro p hp
    exact hnew p.1 (List.of_mem_zip hp).1

end Continued

namespace Series

variable {α : Type}

/-- The windows of a row stay when the row goes on. -/
theorem windows_isPrefix {n : Nat} {xs ys : List α} (h : xs <+: ys) (hn : n ≤ xs.length) :
    windows n xs <+: windows n ys := by
  obtain ⟨more, rfl⟩ := h
  have hcount : (xs ++ more).length + 1 - n = (xs.length + 1 - n) + more.length := by
    rw [List.length_append]
    omega
  have hsame : (List.range (xs.length + 1 - n)).map (fun i => ((xs ++ more).drop i).take n) =
      (List.range (xs.length + 1 - n)).map fun i => (xs.drop i).take n := by
    apply List.map_congr_left
    intro i hi
    rw [List.mem_range] at hi
    rw [List.drop_append_of_le_length (by omega), List.take_append_of_le_length]
    rw [List.length_drop]
    omega
  rw [windows, windows, hcount, List.range_add, List.map_append, hsame]
  exact List.prefix_append ..

/-- Elements with the windows that end at them go on. -/
theorem continued_zip_windows {β : Type} {date : β → Date} {D : Date} {xs ys : List β}
    (h : Continued date D xs ys) (f : β → α) {n : Nat} (hn : n ≤ xs.length) :
    Continued (fun p => date p.1) D ((xs.drop (n - 1)).zip (windows n (xs.map f)))
      ((ys.drop (n - 1)).zip (windows n (ys.map f))) := by
  have hwindows : windows n (xs.map f) <+: windows n (ys.map f) := by
    apply windows_isPrefix (h.isPrefix.map f)
    rw [List.length_map]
    exact hn
  apply (h.drop (by omega)).zip hwindows
  rw [List.length_drop, length_windows, List.length_map]
  omega

/-- A series goes on after a date. -/
abbrev Extended (D : Date) (s s' : Series α) : Prop := Continued Prod.fst D s s'

variable {D : Date} {s s' : Series α}

/-- Up to the date a series that went on is what it was. -/
theorem Extended.between_eq (h : Extended D s s') : s'.between none (some D) = s := by
  simpa [between] using h.filter_le

theorem Extended.values_isPrefix (h : Extended D s s') : s.values <+: s'.values :=
  h.isPrefix.map Prod.snd

/-- Pairing with earlier points keeps a continuation. -/
theorem Extended.withBase (h : Extended D s s') {n : Nat} (hn : n ≤ s.length) :
    Continued (fun p => p.1.1) D (Series.withBase n s) (Series.withBase n s') := by
  have hlength : (s.drop n).length ≤ s.values.length := by simp [values]
  exact (h.drop hn).zip h.values_isPrefix hlength

/-- Dropping undefined points keeps an extension. -/
theorem Extended.present {s s' : Series (Option α)} (h : Extended D s s') :
    Extended D (present s) (present s') := by
  apply h.filterMap
  intro p q hq
  obtain ⟨x, -, rfl⟩ := Option.map_eq_some_iff.mp hq
  rfl

variable [Arith α]

theorem Extended.finite (h : Extended D s s') : Extended D s.finite s'.finite := h.filter

theorem Extended.signal (h : Extended D s s') (comparison : Comparison) (threshold : α) :
    Extended D (comparison.signal threshold s) (comparison.signal threshold s') :=
  h.map (fun _ _ => rfl) fun _ => rfl

theorem Extended.relativeChanges (h : Extended D s s') {n : Nat} (hn : n ≤ s.length) :
    Extended D (relativeChanges n s) (relativeChanges n s') :=
  (h.withBase hn).filter.map (fun _ _ => rfl) fun _ => rfl

open IndicatorFormula.Except

/-- The momentum of an extension extends the momentum. -/
theorem momentum_follows (h : Extended D s s') (n : Nat) :
    Follows (Extended D) (momentum n s) (momentum n s') := by
  have hlength := h.length_le
  unfold momentum
  by_cases hn : s.length ≤ n
  · rw [if_pos hn]
    exact follows_error
  · rw [if_neg hn, if_neg (by omega)]
    apply follows_ok
    exact (h.withBase (by omega)).map (fun _ _ => rfl) fun _ => rfl

/-- The percentage change of an extension extends the percentage change. -/
theorem percentChange_follows (h : Extended D s s') (n : Nat) :
    Follows (Extended D) (percentChange n s) (percentChange n s') := by
  have hlength := h.length_le
  unfold percentChange
  by_cases hn : s.length ≤ n
  · rw [if_pos hn]
    exact follows_error
  · rw [if_neg hn, if_neg (by omega)]
    have hchanges := h.relativeChanges (n := n) (by omega)
    cases hold : Series.relativeChanges n s with
    | nil => exact follows_error
    | cons p rest =>
      rw [hold] at hchanges
      -- A base other than zero stays one, so there is a change in the longer series as well.
      obtain ⟨more, hmore, -⟩ := id hchanges
      rw [hmore] at hchanges ⊢
      exact follows_ok (hchanges.map (fun _ _ => rfl) fun _ => rfl)

/-- The oscillator of an extension extends the oscillator. -/
theorem stochastic_follows (h : Extended D s s') {n : Nat} (hn : n ≠ 0) :
    Follows (Extended D) (stochastic n s) (stochastic n s') := by
  have hlength := h.length_le
  unfold stochastic
  by_cases hshort : s.length < n
  · rw [if_pos hshort]
    exact follows_error
  · rw [if_neg hshort, if_neg (by omega)]
    simp only [windowEnds, hn, if_false]
    apply follows_ok
    exact (continued_zip_windows h Prod.snd (by omega)).map (fun _ _ => rfl) fun _ => rfl

end Series

end IndicatorFormula
