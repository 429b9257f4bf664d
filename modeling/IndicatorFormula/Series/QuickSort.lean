import IndicatorFormula.Series.Index

/-!
# Sorting dates

The index that is used where nothing else is said. It looks whether the dates are in order
already; if they are not then it divides the rows at the median of three of them, until no part
has more than seventeen rows, and sorts the parts by insertion. Dividing exchanges rows over
long distances, and so rows of one date can change places.
-/

namespace IndicatorFormula

namespace QuickSort

/-- A date with the place of its row. -/
abbrev Entry := Date × Nat

/-- Put an entry behind all entries that are not later. -/
def insert (e : Entry) : List Entry → List Entry
  | [] => [e]
  | x :: rest => if e.1 < x.1 then e :: x :: rest else x :: insert e rest

/-- Insert entries one after another. -/
def insertAll (entries : List Entry) : List Entry :=
  entries.foldl (fun sorted e => insert e sorted) []

/-- Behind an entry that is found less is left. -/
theorem length_lt_of_dropWhile {p : Entry → Bool} {entries rest : List Entry} {x : Entry}
    (h : entries.dropWhile p = x :: rest) : rest.length < entries.length := by
  have hle := (List.dropWhile_sublist p (l := entries)).length_le
  rwa [h] at hle

/-- Exchange the first entry that is not earlier than the pivot with the last one that is not
later, and go on between the two: what comes to stand in front, and what behind. -/
def exchange (pivot : Date) (entries : List Entry) : List Entry × List Entry :=
  let early := entries.takeWhile fun e => e.1 < pivot
  match h : entries.dropWhile fun e => e.1 < pivot with
  | [] => (early, [])
  | x :: rest =>
    have _ := length_lt_of_dropWhile h
    let late := rest.reverse.takeWhile fun e => pivot < e.1
    match h' : rest.reverse.dropWhile fun e => pivot < e.1 with
    | [] => (early, x :: rest)
    | y :: between =>
      have _ := length_lt_of_dropWhile h'
      let inner := exchange pivot between.reverse
      (early ++ y :: inner.1, inner.2 ++ x :: late.reverse)
termination_by entries.length
decreasing_by
  simp only [List.length_reverse] at *
  omega

/-- Three entries in the order of their dates. -/
def ordered (low middle high : Entry) : Entry × Entry × Entry :=
  let (low, middle) := if middle.1 < low.1 then (middle, low) else (low, middle)
  let (middle, high) := if high.1 < middle.1 then (high, middle) else (middle, high)
  let (low, middle) := if middle.1 < low.1 then (middle, low) else (low, middle)
  (low, middle, high)

/-- Entries taken apart: the first, those up to the middle, the middle one, those up to the last
but one, that one, and the last. -/
structure Parts where
  /-- The first entry. -/
  low : Entry
  /-- The entries up to the middle. -/
  before : List Entry
  /-- The entry in the middle. -/
  middle : Entry
  /-- The entries behind the middle. -/
  after : List Entry
  /-- The last entry but one. -/
  next : Entry
  /-- The last entry. -/
  high : Entry

/-- Take entries apart, if there are enough of them. -/
def parts? : List Entry → Option Parts
  | [] => none
  | low :: rest =>
    match rest.splitAt (rest.length / 2 - 1) with
    | (before, middle :: behind) =>
      match behind.reverse with
      | high :: next :: after => some ⟨low, before, middle, after.reverse, next, high⟩
      | _ => none
    | _ => none

/-- Divide entries at the median of the first, the middle and the last one: what comes to stand
in front of it, the median, and what comes to stand behind. The last entry but one makes room
for the median, which is put in its place in the end. -/
def Parts.divided (p : Parts) : List Entry × Entry × List Entry :=
  let three := ordered p.low p.middle p.high
  let sides := exchange three.2.1.1 (p.before ++ p.next :: p.after)
  (three.1 :: sides.1, three.2.1, sides.2.drop 1 ++ sides.2.take 1 ++ [three.2.2])

/-- Inserting an entry adds just that entry. -/
theorem insert_perm (e : Entry) (entries : List Entry) :
    (insert e entries).Perm (e :: entries) := by
  induction entries with
  | nil => exact .refl _
  | cons x rest ih =>
    unfold insert
    split
    · exact .refl _
    · exact (ih.cons x).trans (.swap e x rest)

/-- Inserting entries one by one keeps all of them. -/
theorem foldl_insert_perm (entries sorted : List Entry) :
    (entries.foldl (fun sorted e => insert e sorted) sorted).Perm (sorted ++ entries) := by
  induction entries generalizing sorted with
  | nil => rw [List.append_nil]; exact .refl _
  | cons e rest ih =>
    refine (ih (insert e sorted)).trans ?_
    refine ((insert_perm e sorted).append_right rest).trans ?_
    exact List.perm_middle.symm

/-- Insertion sorts the entries that it is given. -/
theorem insertAll_perm (entries : List Entry) : (insertAll entries).Perm entries :=
  foldl_insert_perm entries []

/-- Exchanging divides the entries that it is given. -/
theorem exchange_perm (pivot : Date) (entries : List Entry) :
    ((exchange pivot entries).1 ++ (exchange pivot entries).2).Perm entries := by
  fun_induction exchange pivot entries with
  | case1 entries early h =>
    have hentries := List.takeWhile_append_dropWhile (p := fun e : Entry => decide (e.1 < pivot))
      (l := entries)
    rw [h] at hentries
    exact .of_eq hentries
  | case2 entries early x rest h _ h' =>
    have hentries := List.takeWhile_append_dropWhile (p := fun e : Entry => decide (e.1 < pivot))
      (l := entries)
    rw [h] at hentries
    exact .of_eq hentries
  | case3 entries early x rest h _ late y between h' _ inner ih =>
    have hentries := List.takeWhile_append_dropWhile (p := fun e : Entry => decide (e.1 < pivot))
      (l := entries)
    have hrest := List.takeWhile_append_dropWhile (p := fun e : Entry => decide (pivot < e.1))
      (l := rest.reverse)
    rw [h] at hentries
    rw [h'] at hrest
    change (inner.1 ++ inner.2).Perm between.reverse at ih
    refine List.perm_iff_count.mpr fun e => ?_
    have hinner := ih.count_eq e
    have hall : entries.count e = early.count e + (x :: rest).count e := by
      rw [← List.count_append, hentries]
    have hbehind : rest.count e = late.count e + (y :: between).count e := by
      rw [← List.count_append, hrest, List.count_reverse]
    simp only [List.count_append, List.count_cons, List.count_reverse] at hinner hall hbehind ⊢
    omega

/-- What comes to stand in front is not later than the pivot, and what comes to stand behind is
not earlier. -/
theorem exchange_bounds (pivot : Date) (entries : List Entry) :
    (∀ e ∈ (exchange pivot entries).1, e.1 ≤ pivot) ∧
      ∀ e ∈ (exchange pivot entries).2, pivot ≤ e.1 := by
  have hearly (entries : List Entry) :
      ∀ e ∈ entries.takeWhile fun e => e.1 < pivot, e.1 ≤ pivot := fun e he =>
    Date.le_of_lt (by simpa using List.all_eq_true.mp List.all_takeWhile e he)
  have hlate (entries : List Entry) :
      ∀ e ∈ entries.takeWhile fun e => pivot < e.1, pivot ≤ e.1 := fun e he =>
    Date.le_of_lt (by simpa using List.all_eq_true.mp List.all_takeWhile e he)
  fun_induction exchange pivot entries with
  | case1 entries early h => exact ⟨hearly entries, List.forall_mem_nil _⟩
  | case2 entries early x rest h _ h' =>
    have hx := List.head?_dropWhile_not (fun e : Entry => decide (e.1 < pivot)) entries
    rw [h] at hx
    refine ⟨hearly entries, List.forall_mem_cons.mpr ⟨Date.le_of_not_lt (by simpa using hx), ?_⟩⟩
    intro e he
    have hall := List.takeWhile_append_dropWhile (p := fun e : Entry => decide (pivot < e.1))
      (l := rest.reverse)
    rw [h', List.append_nil] at hall
    exact hlate rest.reverse e (hall.symm ▸ List.mem_reverse.mpr he)
  | case3 entries early x rest h _ late y between h' _ inner ih =>
    have hx := List.head?_dropWhile_not (fun e : Entry => decide (e.1 < pivot)) entries
    have hy := List.head?_dropWhile_not (fun e : Entry => decide (pivot < e.1)) rest.reverse
    rw [h] at hx
    rw [h'] at hy
    constructor
    · intro e he
      rcases List.mem_append.mp he with he | he
      · exact hearly entries e he
      · rcases List.mem_cons.mp he with rfl | he
        · exact Date.le_of_not_lt (by simpa using hy)
        · exact ih.1 e he
    · intro e he
      rcases List.mem_append.mp he with he | he
      · exact ih.2 e he
      · rcases List.mem_cons.mp he with rfl | he
        · exact Date.le_of_not_lt (by simpa using hx)
        · exact hlate rest.reverse e (List.mem_reverse.mp he)

/-- The three entries stay the same. -/
theorem ordered_perm (low middle high : Entry) :
    [(ordered low middle high).1, (ordered low middle high).2.1,
      (ordered low middle high).2.2].Perm [low, middle, high] := by
  simp only [ordered, Date.lt_iff]
  refine List.perm_iff_count.mpr fun e => ?_
  grind

/-- The three entries come in the order of their dates. -/
theorem ordered_ascends (low middle high : Entry) :
    (ordered low middle high).1.1 ≤ (ordered low middle high).2.1.1 ∧
      (ordered low middle high).2.1.1 ≤ (ordered low middle high).2.2.1 := by
  simp only [ordered, Date.lt_iff, Date.le_iff]
  grind

/-- All entries of the parts, in the order in which they were given. -/
def Parts.entries (p : Parts) : List Entry :=
  p.low :: (p.before ++ p.middle :: (p.after ++ [p.next, p.high]))

/-- Entries are taken apart without loss. -/
theorem entries_of_parts? {entries : List Entry} {p : Parts} (h : parts? entries = some p) :
    p.entries = entries := by
  cases entries with
  | nil => cases h
  | cons low rest =>
    have hrest := List.take_append_drop (rest.length / 2 - 1) rest
    simp only [parts?, List.splitAt_eq] at h
    split at h
    · next before middle behind hsplit =>
      obtain ⟨hbefore, hbehind⟩ := Prod.mk.inj hsplit
      split at h
      · next high next after hreverse =>
        cases h
        have hafter : behind = after.reverse ++ [next, high] := by
          rw [← List.reverse_reverse behind, hreverse]
          simp
        rw [Parts.entries, ← hafter, ← hbefore, ← hbehind, hrest]
      · cases h
    · cases h

/-- Four entries or more can be taken apart. -/
theorem exists_parts? {entries : List Entry} (h : 4 ≤ entries.length) :
    ∃ p, parts? entries = some p := by
  cases entries with
  | nil => simp at h
  | cons low rest =>
    simp only [List.length_cons] at h
    simp only [parts?, List.splitAt_eq]
    have hdrop := List.length_drop (i := rest.length / 2 - 1) (l := rest)
    cases hbehind : rest.drop (rest.length / 2 - 1) with
    | nil =>
      rw [hbehind, List.length_nil] at hdrop
      omega
    | cons middle behind =>
      rw [hbehind, List.length_cons] at hdrop
      match hreverse : behind.reverse with
      | high :: next :: after => exact ⟨_, by simp only [hreverse]; rfl⟩
      | [_] | [] =>
        have hlength := congrArg List.length hreverse
        simp only [List.length_reverse, List.length_cons, List.length_nil] at hlength
        omega

/-- Dividing keeps the entries. -/
theorem Parts.divided_perm (p : Parts) :
    (p.divided.1 ++ p.divided.2.1 :: p.divided.2.2).Perm p.entries := by
  refine List.perm_iff_count.mpr fun e => ?_
  have hthree := (ordered_perm p.low p.middle p.high).count_eq e
  have hexchange := (exchange_perm (ordered p.low p.middle p.high).2.1.1
    (p.before ++ p.next :: p.after)).count_eq e
  have hback (back : List Entry) : (back.drop 1).count e + (back.take 1).count e =
      back.count e := by
    rw [Nat.add_comm, ← List.count_append, List.take_append_drop]
  simp only [divided, entries, List.count_append, List.count_cons, List.count_nil] at *
  have hdivided := hback (exchange (ordered p.low p.middle p.high).2.1.1
    (p.before ++ p.next :: p.after)).2
  omega

/-- What stands in front of the median is not later, and what stands behind it is not earlier. -/
theorem Parts.divided_bounds (p : Parts) :
    (∀ e ∈ p.divided.1, e.1 ≤ p.divided.2.1.1) ∧ ∀ e ∈ p.divided.2.2, p.divided.2.1.1 ≤ e.1 := by
  obtain ⟨hlow, hhigh⟩ := ordered_ascends p.low p.middle p.high
  obtain ⟨hfront, hback⟩ := exchange_bounds (ordered p.low p.middle p.high).2.1.1
    (p.before ++ p.next :: p.after)
  refine ⟨List.forall_mem_cons.mpr ⟨hlow, hfront⟩, fun e he => ?_⟩
  simp only [divided, List.mem_append, List.mem_singleton] at he
  rcases he with (he | he) | rfl
  · exact hback e (List.mem_of_mem_drop he)
  · exact hback e (List.mem_of_mem_take he)
  · exact hhigh

/-- Sort entries: few by insertion, many by dividing them. -/
def sort (entries : List Entry) : List Entry :=
  if entries.length ≤ 17 then insertAll entries
  else
    match h : parts? entries with
    | none => entries
    | some p =>
      have hlength : p.divided.1.length + (p.divided.2.2.length + 1) = entries.length := by
        rw [← entries_of_parts? h, ← p.divided_perm.length_eq, List.length_append,
          List.length_cons]
      sort p.divided.1 ++ p.divided.2.1 :: sort p.divided.2.2
termination_by entries.length

/-- Sorting keeps the entries. -/
theorem sort_perm (entries : List Entry) : (sort entries).Perm entries := by
  fun_induction sort entries with
  | case1 entries short => exact insertAll_perm entries
  | case2 entries long h => exact .refl _
  | case3 entries long p h _ ihfront ihback =>
    rw [← entries_of_parts? h]
    exact (ihfront.append (ihback.cons _)).trans p.divided_perm

theorem mem_insert {e x : Entry} {entries : List Entry} :
    x ∈ insert e entries ↔ x = e ∨ x ∈ entries := by
  rw [(insert_perm e entries).mem_iff, List.mem_cons]

section Insertion

variable {R G : Entry → Entry → Prop} {e : Entry} {entries sorted : List Entry}

/-- An order that respects dates is kept when an entry is inserted that fits in. -/
theorem insert_pairwise (hle : ∀ {x y}, R x y → x.1 ≤ y.1) (h : entries.Pairwise R)
    (hin : ∀ x ∈ entries, (x.1 ≤ e.1 → R x e) ∧ (e.1 < x.1 → R e x)) :
    (insert e entries).Pairwise R := by
  induction entries with
  | nil => exact List.pairwise_singleton _ _
  | cons x rest ih =>
    obtain ⟨hx, hrest⟩ := List.pairwise_cons.mp h
    obtain ⟨hxin, hrestin⟩ := List.forall_mem_cons.mp hin
    unfold insert
    split
    · next hlt =>
      refine List.pairwise_cons.mpr ⟨List.forall_mem_cons.mpr ⟨hxin.2 hlt, fun y hy => ?_⟩, h⟩
      exact (hrestin y hy).2 (Int.lt_of_lt_of_le hlt (hle (hx y hy)))
    · next hnlt =>
      refine List.pairwise_cons.mpr ⟨fun y hy => ?_, ih hrest hrestin⟩
      rcases mem_insert.mp hy with rfl | hy
      · exact hxin.1 (Date.le_of_not_lt hnlt)
      · exact hx y hy

/-- Inserting entries one by one keeps a relation that extends the order of dates. -/
theorem foldl_insert_pairwise (hle : ∀ {x y}, R x y → x.1 ≤ y.1)
    (hin : ∀ {x e}, G x e → (x.1 ≤ e.1 → R x e) ∧ (e.1 < x.1 → R e x))
    (hsorted : sorted.Pairwise R) (hgiven : entries.Pairwise G)
    (hbefore : ∀ x ∈ sorted, ∀ e ∈ entries, G x e) :
    (entries.foldl (fun sorted e => insert e sorted) sorted).Pairwise R := by
  induction entries generalizing sorted with
  | nil => exact hsorted
  | cons e rest ih =>
    obtain ⟨he, hrest⟩ := List.pairwise_cons.mp hgiven
    refine ih (insert_pairwise hle hsorted fun x hx => ?_) hrest fun x hx f hf => ?_
    · exact hin (hbefore x hx e (List.mem_cons_self ..))
    · rcases mem_insert.mp hx with rfl | hx
      · exact he f hf
      · exact hbefore x hx f (List.mem_cons_of_mem e hf)

/-- What insertion sorts comes into any order that respects dates, if the entries were given so
that each fits in behind those given before it. -/
theorem insertAll_pairwise (hle : ∀ {x y}, R x y → x.1 ≤ y.1)
    (hin : ∀ {x e}, G x e → (x.1 ≤ e.1 → R x e) ∧ (e.1 < x.1 → R e x))
    (hgiven : entries.Pairwise G) : (insertAll entries).Pairwise R :=
  foldl_insert_pairwise hle hin .nil hgiven (List.forall_mem_nil _)

end Insertion

/-- Sorted entries stand in the order of their dates. -/
theorem sort_ascends (entries : List Entry) :
    (sort entries).Pairwise fun e f => e.1 ≤ f.1 := by
  fun_induction sort entries with
  | case1 entries short =>
    have hgiven : entries.Pairwise fun _ _ => True := List.pairwise_of_forall fun _ _ => trivial
    exact insertAll_pairwise id (fun _ => ⟨id, Date.le_of_lt⟩) hgiven
  | case2 entries long h =>
    obtain ⟨p, hp⟩ := @exists_parts? entries (by omega)
    rw [h] at hp
    cases hp
  | case3 entries long p h _ ihfront ihback =>
    obtain ⟨hfront, hback⟩ := p.divided_bounds
    have hfront : ∀ e ∈ sort p.divided.1, e.1 ≤ p.divided.2.1.1 := fun e he =>
      hfront e ((sort_perm _).mem_iff.mp he)
    have hback : ∀ e ∈ sort p.divided.2.2, p.divided.2.1.1 ≤ e.1 := fun e he =>
      hback e ((sort_perm _).mem_iff.mp he)
    refine List.pairwise_append.mpr ⟨ihfront, List.pairwise_cons.mpr ⟨hback, ihback⟩, ?_⟩
    intro e he f hf
    rcases List.mem_cons.mp hf with rfl | hf
    · exact hfront e he
    · exact Date.le_trans (hfront e he) (hback f hf)

/-- Few entries that are given in the order of their places keep it where they have one date. -/
theorem sort_of_short {entries : List Entry} (h : entries.length ≤ 17)
    (hgiven : entries.Pairwise fun e f => e.2 < f.2) :
    (sort entries).Pairwise fun e f => e.1 ≤ f.1 ∧ (e.1 = f.1 → e.2 < f.2) := by
  rw [sort, if_pos h]
  refine insertAll_pairwise And.left (fun hplace => ⟨fun hle => ⟨hle, fun _ => hplace⟩, ?_⟩) hgiven
  intro hlt
  refine ⟨Date.le_of_lt hlt, fun heq => ?_⟩
  rw [heq] at hlt
  exact absurd hlt (Int.lt_irrefl _)

/-- The places of rows with the given dates, in the order in which the rows come to stand. -/
def order (ds : List Date) : List Nat :=
  if ds.Pairwise (· ≤ ·) then List.range ds.length else (sort ds.zipIdx).map Prod.snd

variable {ds : List Date}

/-- An entry of a row has the date of that row. -/
theorem getElem?_of_mem_sort {e : Entry} (h : e ∈ sort ds.zipIdx) : ds[e.2]? = some e.1 :=
  List.mem_zipIdx_iff_getElem?.mp ((sort_perm _).mem_iff.mp h)

/-- The order is one of all places. -/
theorem order_perm (ds : List Date) : (order ds).Perm (List.range ds.length) := by
  unfold order
  split
  · exact .refl _
  · rw [List.range_eq_range', ← List.zipIdx_map_snd 0 ds]
    exact (sort_perm _).map Prod.snd

/-- The dates ascend in the order. -/
theorem order_ascends (ds : List Date) :
    (order ds).Pairwise fun i j => ∀ d e, ds[i]? = some d → ds[j]? = some e → d ≤ e := by
  unfold order
  split
  · next hsorted =>
    refine List.pairwise_lt_range.imp fun {i j} hlt d e hd he => ?_
    obtain ⟨hi, rfl⟩ := List.getElem?_eq_some_iff.mp hd
    obtain ⟨hj, rfl⟩ := List.getElem?_eq_some_iff.mp he
    exact List.pairwise_iff_getElem.mp hsorted i j hi hj hlt
  · refine List.pairwise_map.mpr
      ((sort_ascends ds.zipIdx).imp_of_mem fun he hf hle d d' hd hd' => ?_)
    rw [getElem?_of_mem_sort he] at hd
    rw [getElem?_of_mem_sort hf] at hd'
    cases hd
    cases hd'
    exact hle

theorem order_of_sorted (h : ds.Pairwise (· ≤ ·)) : order ds = List.range ds.length := if_pos h

/-- Sixteen dates and fewer are put in order with equal ones as they stood. -/
theorem order_of_short (h : ds.length ≤ 16) :
    (order ds).Pairwise fun i j => ds[i]? = ds[j]? → i < j := by
  unfold order
  split
  · refine List.pairwise_lt_range.imp ?_
    exact fun hlt _ => hlt
  · have hplaces : ds.zipIdx.Pairwise fun e f => e.2 < f.2 := by
      rw [← List.pairwise_map (f := Prod.snd), List.zipIdx_map_snd]
      exact List.pairwise_lt_range'
    have hshort : ds.zipIdx.length ≤ 17 := by
      rw [List.length_zipIdx]
      omega
    refine List.pairwise_map.mpr ((sort_of_short hshort hplaces).imp_of_mem ?_)
    intro e f he hf hin heq
    rw [getElem?_of_mem_sort he, getElem?_of_mem_sort hf, Option.some.injEq] at heq
    exact hin.2 heq

end QuickSort

/-- The index that sorts by dividing and holds the dates of the years 1 to 9999. -/
def DateIndex.quick : DateIndex where
  holds d := decide (1 ≤ d.ordinal) && decide (d.ordinal ≤ 3652059)
  order := QuickSort.order
  order_perm := QuickSort.order_perm
  order_ascends := QuickSort.order_ascends
  order_of_sorted _ := QuickSort.order_of_sorted
  order_of_short _ := QuickSort.order_of_short

end IndicatorFormula
