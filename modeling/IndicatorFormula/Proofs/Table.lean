import Mathlib
import IndicatorFormula.Table

/-!
# Tables by their entries

What is found under a key is an entry with that key, and what is put into a table or taken out
of it changes that one entry.
-/

namespace IndicatorFormula

namespace Table

variable {κ β : Type} {k : κ} {v : β} {t : Table κ β} {e : κ × β}

/-- The keys of a table in their order. -/
def keys (t : Table κ β) : List κ := t.map Prod.fst

theorem mem_keys_of_mem (h : e ∈ t) : e.1 ∈ t.keys := List.mem_map_of_mem h

/-- Of entries with different keys each is known by its key. -/
theorem eq_of_key_eq {e' : κ × β} (hkeys : t.keys.Nodup) (h : e ∈ t) (h' : e' ∈ t)
    (heq : e.1 = e'.1) : e = e' :=
  List.inj_on_of_nodup_map hkeys h h' heq

variable [DecidableEq κ]

/-- What is found under a key is an entry. -/
theorem mem_of_find? (h : t.find? k = some v) : (k, v) ∈ t := by
  induction t with
  | nil => simp [find?] at h
  | cons e rest ih =>
    by_cases hk : e.1 = k
    · simp only [find?, hk, if_true, Option.some.injEq] at h
      rw [← hk, ← h]
      exact List.mem_cons_self ..
    · simp only [find?, hk, if_false] at h
      exact List.mem_cons_of_mem _ (ih h)

/-- Putting an entry adds its key. -/
theorem mem_keys_put {k' : κ} : k' ∈ (put k v t).keys ↔ k' = k ∨ k' ∈ t.keys := by
  induction t with
  | nil => simp [put, keys]
  | cons e rest ih =>
    by_cases hk : e.1 = k
    · simp [put, keys, hk]
    · simp only [keys] at ih
      simp only [put, keys, hk, if_false, List.map_cons, List.mem_cons, ih]
      exact or_left_comm

/-- Putting an entry keeps the keys distinct. -/
theorem nodup_keys_put (hkeys : t.keys.Nodup) : (put k v t).keys.Nodup := by
  induction t with
  | nil => simp [put, keys]
  | cons e rest ih =>
    obtain ⟨hfresh, hrest⟩ := List.nodup_cons.mp hkeys
    by_cases hk : e.1 = k
    · simpa only [put, hk, if_true, keys, List.map_cons] using hkeys
    · simp only [put, hk, if_false]
      refine List.nodup_cons.mpr ⟨?_, ih hrest⟩
      intro hmem
      rcases mem_keys_put.mp hmem with h | h
      · exact hk h
      · exact hfresh h

/-- After a value is put its entry takes the place of the one with its key. -/
theorem mem_put (hkeys : t.keys.Nodup) : e ∈ put k v t ↔ e = (k, v) ∨ e ∈ t ∧ e.1 ≠ k := by
  induction t with
  | nil => simp [put]
  | cons first rest ih =>
    obtain ⟨hfresh, hrest⟩ := List.nodup_cons.mp hkeys
    by_cases hk : first.1 = k
    · have hother : e ∈ rest → e.1 ≠ k := by
        intro hmem heq
        exact hfresh (hk ▸ heq ▸ mem_keys_of_mem hmem)
      simp only [put, hk, if_true, List.mem_cons]
      constructor
      · rintro (h | h)
        · exact .inl h
        · exact .inr ⟨.inr h, hother h⟩
      · rintro (h | ⟨rfl | h, hne⟩)
        · exact .inl h
        · exact absurd hk hne
        · exact .inr h
    · simp only [put, hk, if_false, List.mem_cons, ih hrest]
      constructor
      · rintro (rfl | h | ⟨h, hne⟩)
        · exact .inr ⟨.inl rfl, hk⟩
        · exact .inl h
        · exact .inr ⟨.inr h, hne⟩
      · rintro (h | ⟨h | h, hne⟩)
        · exact .inr (.inl h)
        · exact .inl h
        · exact .inr (.inr ⟨h, hne⟩)

/-- Without the key that was put the table is what it was. -/
theorem erase_put : erase k (put k v t) = erase k t := by
  induction t with
  | nil => simp [put, erase]
  | cons e rest ih =>
    simp only [erase] at ih ⊢
    by_cases hk : e.1 = k
    · simp [put, hk]
    · simp only [put, hk, if_false, List.filter_cons, ih]

/-- What is the same of a value and of the one in whose place it is put is the same of the
whole table. -/
theorem map_put {γ : Type} {f : β → γ} {w : β} (h : t.find? k = some w) (hf : f v = f w) :
    (put k v t).map (fun e => f e.2) = t.map fun e => f e.2 := by
  induction t with
  | nil => simp [find?] at h
  | cons e rest ih =>
    by_cases hk : e.1 = k
    · simp only [find?, hk, if_true, Option.some.injEq] at h
      simp only [put, hk, if_true, List.map_cons, hf, h]
    · simp only [find?, hk, if_false] at h
      simp only [put, hk, if_false, List.map_cons, ih h]

/-- A value under a key that has none comes at the end. -/
theorem put_of_find?_eq_none (h : t.find? k = none) : put k v t = t ++ [(k, v)] := by
  induction t with
  | nil => rfl
  | cons e rest ih =>
    by_cases hk : e.1 = k
    · simp [find?, hk] at h
    · simp only [find?, hk, if_false] at h
      simp only [put, hk, if_false, ih h, List.cons_append]

/-- The value that a key has already changes nothing. -/
theorem put_of_find?_eq_some (h : t.find? k = some v) : put k v t = t := by
  induction t with
  | nil => cases h
  | cons e rest ih =>
    by_cases hk : e.1 = k
    · simp only [find?, hk, if_true, Option.some.injEq] at h
      simp only [put, hk, if_true, ← h]
      rw [← hk]
    · simp only [find?, hk, if_false] at h
      simp only [put, hk, if_false, ih h]

/-- A value for a key that has one leaves all keys where they are. -/
theorem keys_put_of_find? {w : β} (h : t.find? k = some w) : (put k v t).keys = t.keys := by
  induction t with
  | nil => cases h
  | cons e rest ih =>
    by_cases hk : e.1 = k
    · simp [put, keys, hk]
    · simp only [find?, hk, if_false] at h
      simpa [put, keys, hk] using ih h

theorem mem_erase : e ∈ erase k t ↔ e ∈ t ∧ e.1 ≠ k := by simp [erase]

/-- If nothing is found under a key, no entry has it. -/
theorem ne_of_find?_eq_none (h : t.find? k = none) : ∀ e ∈ t, e.1 ≠ k := by
  induction t with
  | nil => exact fun e he => nomatch he
  | cons first rest ih =>
    by_cases hk : first.1 = k
    · simp [find?, hk] at h
    · simp only [find?, hk, if_false] at h
      exact List.forall_mem_cons.mpr ⟨hk, ih h⟩

/-- There is nothing to erase under a key that has no value. -/
theorem erase_of_find?_eq_none (h : t.find? k = none) : erase k t = t := by
  refine List.filter_eq_self.mpr fun e he => ?_
  simpa using ne_of_find?_eq_none h e he

theorem nodup_keys_erase (hkeys : t.keys.Nodup) : (erase k t).keys.Nodup :=
  (List.filter_sublist.map Prod.fst).nodup hkeys

end Table

end IndicatorFormula
