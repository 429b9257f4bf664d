import IndicatorFormula.Proofs.Except
import IndicatorFormula.Proofs.Formula.Expected

/-!
# Exchanging one spelling for another

Where a text expects a formula one spelling of it may be put in the place of another: the whole
text is read as the same formula, places aside, or refused for the same problem. The reader goes
through the two texts side by side. In front of the exchange and behind it they are the same, and
so are the places in them, counted from the exchange.
-/

namespace IndicatorFormula.Formula

open Text Decimal IndicatorFormula.Except

/-- The lengths of two texts that begin and end alike, with other stretches between. -/
structure Overlap where
  /-- The length of what both begin with. -/
  front : Nat
  /-- The length of the stretch in the first text. -/
  left : Nat
  /-- The length of the stretch in the second text. -/
  right : Nat
  /-- The length of what both end in. -/
  back : Nat

namespace Overlap

/-- The length of the first text. -/
def size (o : Overlap) : Nat := o.front + o.left + o.back

/-- The length of the second text. -/
def size' (o : Overlap) : Nat := o.front + o.right + o.back

/-- Two places are the same: in what both texts begin with, or as far behind the stretch. -/
inductive SamePlace (o : Overlap) : Nat → Nat → Prop
  /-- Both places lie in front of the stretch. -/
  | front {p : Nat} (lt : p < o.front) : SamePlace o p p
  /-- Both places lie behind the stretch. -/
  | back {k : Nat} (le : k ≤ o.back) : SamePlace o (o.front + o.left + k) (o.front + o.right + k)

/-- Two texts are refused for the same problem at the same place. -/
structure SameError (o : Overlap) (e e' : ReadError) : Prop where
  /-- The same is wrong. -/
  problem : e.problem = e'.problem
  /-- It is wrong at the same place. -/
  place : o.SamePlace e.position e'.position

/-- The same is left of two texts, all of it behind the stretch, and what was read is the same
without places. -/
structure SameStep {β γ : Type} (unplaced : β → γ) (o : Overlap) (r r' : β × List Char) :
    Prop where
  /-- The same was read. -/
  same : unplaced r.1 = unplaced r'.1
  /-- The same is left. -/
  rest : r.2 = r'.2
  /-- What is left stands behind the stretch. -/
  behind : r.2.length ≤ o.back

/-- Two steps read the same formula or end with the same error. -/
def Agree (o : Overlap) : Step Formula → Step Formula → Prop :=
  Parallel o.SameError (o.SameStep unplaced)

/-- Two steps read the same row of formulas or end with the same error. -/
def RowsAgree (o : Overlap) : Step (List Formula) → Step (List Formula) → Prop :=
  Parallel o.SameError (o.SameStep (List.map unplaced))

end Overlap

section Behind

variable {o : Overlap} {cs rest : List Char} {name : String} {start start' opening opening' : Nat}

/-- What two texts share at the end stands at corresponding places. -/
theorem samePlace_place (h : cs.length ≤ o.back) :
    o.SamePlace (place o.size cs) (place o.size' cs) := by
  have hplace : place o.size cs = o.front + o.left + (o.back - cs.length) ∧
      place o.size' cs = o.front + o.right + (o.back - cs.length) := by
    simp only [place, Overlap.size, Overlap.size']
    omega
  rw [hplace.1, hplace.2]
  exact .back (Nat.sub_le ..)

/-- The place in front of what is left is the same as well if something stands there. -/
theorem samePlace_before (h : cs.length < o.back) :
    o.SamePlace (place o.size cs - 1) (place o.size' cs - 1) := by
  have hplace : place o.size cs - 1 = o.front + o.left + (o.back - cs.length - 1) ∧
      place o.size' cs - 1 = o.front + o.right + (o.back - cs.length - 1) := by
    simp only [place, Overlap.size, Overlap.size']
    omega
  rw [hplace.1, hplace.2]
  exact .back (Nat.le_trans (Nat.sub_le ..) (Nat.sub_le ..))

/-- A quoted text at the common end is read alike. -/
theorem readQuoted_agree {quote : Char} (h : (quote :: cs).length ≤ o.back) :
    o.Agree (readQuoted o.size quote cs) (readQuoted o.size' quote cs) := by
  unfold readQuoted
  cases hdrop : cs.dropWhile (· ≠ quote) with
  | nil => exact .error ⟨rfl, samePlace_place h⟩
  | cons c after =>
    have hsuffix := (List.dropWhile_suffix (· ≠ quote) (l := cs)).length_le
    rw [hdrop] at hsuffix
    simp only [List.length_cons] at h hsuffix
    exact .ok ⟨rfl, rfl, by simp only; omega⟩

/-- A number at the common end is read alike. -/
theorem readNumber_agree {n : Numeral} (hstart : o.SamePlace start start')
    (h : rest.length ≤ o.back) :
    o.Agree (readNumber start n rest) (readNumber start' n rest) := by
  unfold readNumber
  split
  · exact .error ⟨rfl, hstart⟩
  · split
    · exact .ok ⟨rfl, rfl, h⟩
    · exact .error ⟨rfl, hstart⟩

/-- Raw text at the common end is read alike. -/
theorem readRaw_agree (hopening : o.SamePlace opening opening') (h : cs.length ≤ o.back) :
    o.Agree (readRaw o.size name start opening cs) (readRaw o.size' name start' opening' cs) := by
  have hspan := congrArg List.length (rawSpan_append 0 cs)
  simp only [List.length_append] at hspan
  simp only [readRaw]
  split
  · exact .error ⟨rfl, hopening⟩
  · rename_i c after hrest
    rw [hrest, List.length_cons] at hspan
    split
    · refine .error ⟨rfl, samePlace_place ?_⟩
      rw [hrest, List.length_cons]
      omega
    · split
      · exact .error ⟨rfl, samePlace_place h⟩
      · exact .ok ⟨rfl, rfl, by simp only; omega⟩

/-- Calls with the same row of arguments are the same without places. -/
theorem agree_call {x y : Step (List Formula)} (h : o.RowsAgree x y) :
    o.Agree (x.map fun r => (call name r.1 start, r.2))
      (y.map fun r => (call name r.1 start', r.2)) := by
  refine h.map fun r r' hsame => ⟨?_, hsame.rest, hsame.behind⟩
  simp only [unplaced, allUnplaced_eq_map, hsame.same]

/-- A call at the common end is read alike if its arguments are. -/
theorem readCall_agree {args args' : List Char → Step (List Formula)}
    (hopening : o.SamePlace opening opening') (h : cs.length ≤ o.back)
    (hargs : o.RowsAgree (args cs) (args' cs)) :
    o.Agree (readCall o.size name start opening args cs)
      (readCall o.size' name start' opening' args' cs) := by
  unfold readCall
  split
  · exact readRaw_agree hopening h
  · split
    · exact .error ⟨rfl, samePlace_place h⟩
    · exact agree_call hargs

/-- The rest of a row at the common end is read alike. -/
theorem readRest_agree {args args' : List Char → Step (List Formula)} {first first' : Formula}
    (hopening : o.SamePlace opening opening') (hfirst : first.unplaced = first'.unplaced)
    (h : rest.length ≤ o.back)
    (hargs : ∀ more, more.length < rest.length → o.RowsAgree (args more) (args' more)) :
    o.RowsAgree (readRest o.size name opening args first rest)
      (readRest o.size' name opening' args' first' rest) := by
  have hrest := length_dropBlanks_le rest
  unfold readRest
  split
  · exact .error ⟨rfl, hopening⟩
  · rename_i c more hdrop
    rw [hdrop, List.length_cons] at hrest
    split
    · split
      · refine .error ⟨rfl, samePlace_before ?_⟩
        have hmore := length_dropBlanks_le more
        omega
      · refine (hargs more (by omega)).map fun r r' hsame => ?_
        exact ⟨by simp only [List.map_cons, hfirst, hsame.same], hsame.rest, hsame.behind⟩
    · split
      · exact .ok ⟨by simp only [List.map_cons, hfirst], rfl, by simp only; omega⟩
      · refine .error ⟨rfl, samePlace_place ?_⟩
        rw [List.length_cons]
        omega

/-- Two rows agree when their first formulas do and whatever follows these. -/
theorem readArgs_agree {steps steps' : Nat} {cs' : List Char}
    (hfirst : o.Agree (readOne o.size steps cs) (readOne o.size' steps' cs'))
    (hnext : ∀ first first' after, readOne o.size steps cs = .ok (first, after) →
      readOne o.size' steps' cs' = .ok (first', after) → first.unplaced = first'.unplaced →
      after.length ≤ o.back →
      o.RowsAgree
        (readRest o.size name opening (readArgs o.size name opening steps) first after)
        (readRest o.size' name opening' (readArgs o.size' name opening' steps') first' after)) :
    o.RowsAgree (readArgs o.size name opening (steps + 1) cs)
      (readArgs o.size' name opening' (steps' + 1) cs') := by
  unfold readArgs
  generalize readOne o.size steps cs = x at hfirst hnext ⊢
  generalize readOne o.size' steps' cs' = y at hfirst hnext ⊢
  cases hfirst with
  | error fit => exact .error fit
  | @ok r r' fit =>
    obtain ⟨first, after⟩ := r
    obtain ⟨first', after'⟩ := r'
    obtain ⟨hsame, rfl, hbehind⟩ := fit
    exact hnext _ _ _ rfl rfl hsame hbehind

/-- What stands behind the exchange is read the same in both texts, however many steps are left
in each, if these are enough. -/
theorem agree_behind (o : Overlap) (steps : Nat) :
    (∀ steps' cs, cs.length < steps → cs.length < steps' → cs.length ≤ o.back →
      o.Agree (readOne o.size steps cs) (readOne o.size' steps' cs)) ∧
    (∀ steps' name opening opening' cs, cs.length + 1 < steps → cs.length + 1 < steps' →
      cs.length ≤ o.back → o.SamePlace opening opening' →
      o.RowsAgree (readArgs o.size name opening steps cs)
        (readArgs o.size' name opening' steps' cs)) := by
  induction steps with
  | zero => exact ⟨fun _ _ h => absurd h (Nat.not_lt_zero _),
      fun _ _ _ _ _ h => absurd h (Nat.not_lt_zero _)⟩
  | succ steps ih =>
    obtain ⟨hone, hargs⟩ := ih
    constructor
    · intro steps' cs hsteps hsteps' hback
      obtain ⟨steps', rfl⟩ : ∃ n, steps' = n + 1 := ⟨steps' - 1, by omega⟩
      have hlength := length_dropBlanks_le cs
      unfold readOne
      cases hcs : dropBlanks cs with
      | nil => exact .error ⟨rfl, @samePlace_place o [] (Nat.zero_le _)⟩
      | cons c tail =>
        rw [hcs] at hlength
        have htail : (c :: tail).length ≤ o.back := Nat.le_trans hlength hback
        simp only
        split
        · exact readQuoted_agree htail
        · split
          · rename_i n after hnumeral
            refine readNumber_agree (samePlace_place htail) ?_
            have hafter := Numeral.length_lt_of_scan? (Option.filter_eq_some_iff.mp hnumeral).1
            omega
          · split
            · exact .error ⟨rfl, samePlace_place htail⟩
            · rename_i htoken
              have htext := congrArg List.length (splitWord_append (c :: tail))
              have htoken := List.length_pos_iff.mpr htoken
              rw [List.length_append] at htext
              have hbehind := length_dropBlanks_le (splitWord (c :: tail)).2
              split
              · rename_i inside hopening
                rw [hopening, List.length_cons] at hbehind
                have hinside := length_dropBlanks_le inside
                have hplace : o.SamePlace (place o.size ('(' :: inside))
                    (place o.size' ('(' :: inside)) :=
                  samePlace_place (by rw [List.length_cons]; omega)
                split
                · exact readCall_agree hplace (by omega)
                    (hargs _ _ _ _ _ (by omega) (by omega) (by omega) hplace)
                · exact .error ⟨rfl, samePlace_place htail⟩
              · exact .ok ⟨rfl, rfl, by simp only; omega⟩
    · intro steps' name opening opening' cs hsteps hsteps' hback hopening
      obtain ⟨steps', rfl⟩ : ∃ n, steps' = n + 1 := ⟨steps' - 1, by omega⟩
      refine readArgs_agree (hone steps' cs (by omega) (by omega) hback) ?_
      intro first first' after hfirst _ hsame hbehind
      have hlength := ((reads_of_readOne steps).1 _ _ _ hfirst).length_lt
      have hcs := length_dropBlanks_le cs
      exact readRest_agree hopening hsame hbehind fun more hmore =>
        hargs _ _ _ _ _ (by omega) (by omega) (by omega) hopening

end Behind

namespace Overlap

/-- What is left of two texts where some characters are left of what both begin with. -/
structure Facing (o : Overlap) (ahead : Nat) (cs cs' : List Char) : Prop where
  /-- The first text. -/
  length_left : cs.length = ahead + o.left + o.back
  /-- The second text. -/
  length_right : cs'.length = ahead + o.right + o.back
  /-- The first text goes on with a formula. -/
  begins_left : BeginsFormula (dropBlanks cs)
  /-- The second text goes on with a formula. -/
  begins_right : BeginsFormula (dropBlanks cs')

/-- Two texts go on with the same formula or the same error. -/
def FormulasAgree (o : Overlap) (cs cs' : List Char) : Prop :=
  ∀ steps steps', cs.length < steps → cs'.length < steps' →
    o.Agree (readOne o.size steps cs) (readOne o.size' steps' cs')

/-- Two texts go on with the same row of arguments or the same error. -/
def ArgumentsAgree (o : Overlap) (cs cs' : List Char) : Prop :=
  ∀ steps steps' name opening, cs.length + 1 < steps → cs'.length + 1 < steps' →
    opening < o.front →
    o.RowsAgree (readArgs o.size name opening steps cs) (readArgs o.size' name opening steps' cs')

end Overlap

section Ahead

variable {o : Overlap} {cs cs' ws ws' token text : List Char} {f : Formula} {ahead : Nat}

/-- Before the part exchanged the places are the same. -/
theorem place_ahead (hcs : cs.length = ahead + o.left + o.back)
    (hcs' : cs'.length = ahead + o.right + o.back) (hahead : 0 < ahead) (hle : ahead ≤ o.front) :
    place o.size cs = place o.size' cs' ∧ place o.size cs < o.front := by
  simp only [place, Overlap.size, Overlap.size']
  omega

/-- A common text in front keeps two texts facing each other. -/
theorem Overlap.Facing.append (h : o.Facing ahead cs cs') {front : List Char}
    (hleft : BeginsFormula (dropBlanks (front ++ cs)))
    (hright : BeginsFormula (dropBlanks (front ++ cs'))) :
    o.Facing (front.length + ahead) (front ++ cs) (front ++ cs') where
  length_left := by
    rw [List.length_append, h.length_left]
    omega
  length_right := by
    rw [List.length_append, h.length_right]
    omega
  begins_left := hleft
  begins_right := hright

/-- Common blanks in front keep two texts facing each other. -/
theorem Overlap.Facing.append_blanks (h : o.Facing ahead cs cs') (hws : AreBlanks ws) :
    o.Facing (ws.length + ahead) (ws ++ cs) (ws ++ cs') := by
  apply h.append
  · rw [dropBlanks_append hws]
    exact h.begins_left
  · rw [dropBlanks_append hws]
    exact h.begins_right

/-- The common beginning of a formula keeps two texts facing each other. -/
theorem Overlap.Facing.append_begins (h : o.Facing ahead cs cs') (hbegins : BeginsFormula text) :
    o.Facing (text.length + ahead) (text ++ cs) (text ++ cs') := by
  apply h.append
  · rw [(hbegins.append cs).dropBlanks_eq]
    exact hbegins.append cs
  · rw [(hbegins.append cs').dropBlanks_eq]
    exact hbegins.append cs'

/-- Common blanks in front do not matter for reading alike. -/
theorem Overlap.FormulasAgree.append_blanks (h : o.FormulasAgree cs cs') (hws : AreBlanks ws) :
    o.FormulasAgree (ws ++ cs) (ws ++ cs') := by
  intro steps steps' hsteps hsteps'
  rw [List.length_append] at hsteps hsteps'
  obtain ⟨steps, rfl⟩ : ∃ n, steps = n + 1 := ⟨steps - 1, by omega⟩
  obtain ⟨steps', rfl⟩ : ∃ n, steps' = n + 1 := ⟨steps' - 1, by omega⟩
  rw [readOne_append_blanks _ _ hws, readOne_append_blanks _ _ hws]
  exact h _ _ (by omega) (by omega)

/-- Texts that go on with the same formula do so as arguments, since what follows is the same. -/
theorem Overlap.FormulasAgree.arguments (h : o.FormulasAgree cs cs') : o.ArgumentsAgree cs cs' := by
  intro steps steps' name opening hsteps hsteps' hopening
  obtain ⟨steps, rfl⟩ : ∃ n, steps = n + 1 := ⟨steps - 1, by omega⟩
  obtain ⟨steps', rfl⟩ : ∃ n, steps' = n + 1 := ⟨steps' - 1, by omega⟩
  refine readArgs_agree (h steps steps' (by omega) (by omega)) ?_
  intro first first' after hfirst hfirst' hsame hbehind
  have hlength := ((reads_of_readOne steps).1 _ _ _ hfirst).length_lt
  have hlength' := ((reads_of_readOne steps').1 _ _ _ hfirst').length_lt
  have hcs := length_dropBlanks_le cs
  have hcs' := length_dropBlanks_le cs'
  refine readRest_agree (.front hopening) hsame hbehind fun more hmore => ?_
  exact (agree_behind o steps).2 _ _ _ _ _ (by omega) (by omega) (by omega) (.front hopening)

/-- Behind an argument that both texts have, and a comma, they go on with the same arguments. -/
theorem Overlap.ArgumentsAgree.comma (h : o.ArgumentsAgree cs cs') (hfacing : o.Facing ahead cs cs')
    (hws : AreBlanks ws) (first : Spells text f (ws' ++ [','])) (hws' : AreBlanks ws') :
    o.ArgumentsAgree (ws ++ (text ++ (ws' ++ ',' :: cs)))
      (ws ++ (text ++ (ws' ++ ',' :: cs'))) := by
  intro steps steps' name opening hsteps hsteps' hopening
  simp only [List.length_append, List.length_cons] at hsteps hsteps'
  obtain ⟨steps, rfl⟩ : ∃ n, steps = n + 1 := ⟨steps - 1, by omega⟩
  obtain ⟨steps', rfl⟩ : ∃ n, steps' = n + 1 := ⟨steps' - 1, by omega⟩
  obtain ⟨g, hf, hg⟩ := first.readArgs_comma o.size hws hws' hfacing.begins_left steps
    (by simp; omega)
  obtain ⟨g', hf', hg'⟩ := first.readArgs_comma o.size' hws hws' hfacing.begins_right
    steps' (by simp; omega)
  rw [hg, hg']
  have hrow := h steps steps' name opening (by omega) (by omega) hopening
  refine hrow.map fun r r' hsame => ⟨?_, hsame.rest, hsame.behind⟩
  simp only [List.map_cons, hf, hf', hsame.same]

/-- Behind the name of a function and a parenthesis both texts go on with the same call, if they
go on with the same arguments and none of these is taken as it stands. -/
theorem Overlap.ArgumentsAgree.call (h : o.ArgumentsAgree cs cs') (hfacing : o.Facing ahead cs cs')
    (name : isFunctionName token = true) (hws : AreBlanks ws) (hahead : ahead < o.front)
    (hquote : takesRawText (capitals token) = true →
      startsWith isQuote (dropBlanks cs) = true ∧ startsWith isQuote (dropBlanks cs') = true) :
    o.FormulasAgree (token ++ (ws ++ '(' :: cs)) (token ++ (ws ++ '(' :: cs')) := by
  have hopening := @place_ahead o ('(' :: cs) ('(' :: cs') (ahead + 1)
    (by rw [List.length_cons, hfacing.length_left]; omega)
    (by rw [List.length_cons, hfacing.length_right]; omega) (Nat.succ_pos _) hahead
  have htoken := length_pos_of_isFunctionName name
  intro steps steps' hsteps hsteps'
  simp only [List.length_append, List.length_cons] at hsteps hsteps'
  obtain ⟨steps, rfl⟩ : ∃ n, steps = n + 3 := ⟨steps - 3, by omega⟩
  obtain ⟨steps', rfl⟩ : ∃ n, steps' = n + 3 := ⟨steps' - 3, by omega⟩
  rw [readOne_of_arguments _ _ name hws hfacing.begins_left fun hraw => (hquote hraw).1,
    readOne_of_arguments _ _ name hws hfacing.begins_right fun hraw => (hquote hraw).2,
    ← hopening.1]
  exact agree_call (h _ _ _ _ (by omega) (by omega) hopening.2)

end Ahead

section Whole

variable {o : Overlap} {front cs cs' : List Char} {ahead : Nat}

/-- The two texts end alike. -/
theorem finish_agree {f g : Formula} {rest : List Char} (h : f.unplaced = g.unplaced)
    (hrest : rest.length ≤ o.back) :
    Parallel o.SameError (fun f g => f.unplaced = g.unplaced) (finish o.size f rest)
      (finish o.size' g rest) := by
  have hlength := length_dropBlanks_le rest
  unfold finish
  split
  · exact .ok h
  · rename_i c more hdrop
    rw [hdrop] at hlength
    have hplace := @samePlace_place o (c :: more) (Nat.le_trans hlength hrest)
    split
    · exact .error ⟨rfl, hplace⟩
    · exact .error ⟨rfl, hplace⟩

/-- Whole texts that go on with the same formula are read as the same. -/
theorem readChars_agree (h : o.FormulasAgree cs cs') (hfacing : o.Facing o.front cs cs') :
    Parallel o.SameError (fun f g => f.unplaced = g.unplaced) (readChars cs) (readChars cs') := by
  have hne {cs : List Char} (hbegins : BeginsFormula (dropBlanks cs)) : dropBlanks cs ≠ [] := by
    intro hnil
    rw [hnil] at hbegins
    cases hbegins
  have hsize : cs.length = o.size := hfacing.length_left
  have hsize' : cs'.length = o.size' := hfacing.length_right
  have hone := h (o.size + 1) (o.size' + 1) (by omega) (by omega)
  simp only [readChars, hne hfacing.begins_left, hne hfacing.begins_right, if_false, hsize, hsize']
  refine hone.bind fun r r' hsame => ?_
  obtain ⟨f, rest⟩ := r
  obtain ⟨g, rest'⟩ := r'
  obtain ⟨hf, rfl, hbehind⟩ := hsame
  exact finish_agree hf hbehind

mutual

/-- Texts that go on alike where a formula is expected are read as the same. -/
theorem ExpectsFormula.agree {front cs cs' : List Char} {ahead : Nat} :
    ExpectsFormula front → o.FormulasAgree cs cs' → o.Facing ahead cs cs' →
      o.front = front.length + ahead →
      Parallel o.SameError (fun f g => f.unplaced = g.unplaced) (readChars (front ++ cs))
        (readChars (front ++ cs'))
  | .start blanks, h, hfacing, hfront =>
    readChars_agree (h.append_blanks blanks) (hfront ▸ hfacing.append_blanks blanks)
  | @ExpectsFormula.argument front ws row blanks, h, hfacing, hfront => by
    rw [List.length_append] at hfront
    rw [List.append_assoc, List.append_assoc]
    exact row.agree (h.append_blanks blanks).arguments (hfacing.append_blanks blanks) (by omega)
      nofun

/-- Texts that go on alike where an argument is expected are read as the same. -/
theorem ExpectsArgument.agree {front cs cs' : List Char} {ahead : Nat} {quoted : Bool} :
    ExpectsArgument quoted front → o.ArgumentsAgree cs cs' → o.Facing ahead cs cs' →
      o.front = front.length + ahead →
      (quoted = true → startsWith isQuote (dropBlanks cs) = true ∧
        startsWith isQuote (dropBlanks cs') = true) →
      Parallel o.SameError (fun f g => f.unplaced = g.unplaced) (readChars (front ++ cs))
        (readChars (front ++ cs'))
  | @ExpectsArgument.opening front token ws outer name blanks, h, hfacing, hfront, hquoted => by
    have hcall := h.call hfacing name blanks (by simp at hfront; omega) hquoted
    have hahead := hfacing.append_begins (beginsFormula_call name blanks)
    simp only [List.append_assoc, List.cons_append, List.nil_append, List.length_append,
      List.length_cons, List.length_nil] at hahead hfront ⊢
    exact outer.agree hcall hahead (by omega)
  | @ExpectsArgument.comma quoted front ws text ws' f row blanks first quote blanks', h, hfacing,
      hfront, _ => by
    have hrow := h.comma hfacing blanks first blanks'
    have hahead := (hfacing.append_begins (first.begins.append (ws' ++ [',']))).append_blanks blanks
    have hquote (cs : List Char) (hquoted : quoted = true) :
        startsWith isQuote (dropBlanks (ws ++ (text ++ (ws' ++ ',' :: cs)))) = true := by
      rw [first.dropBlanks_eq blanks]
      obtain ⟨c, more, rfl, hc⟩ := startsWith_iff.mp (quote hquoted)
      exact hc
    simp only [List.append_assoc, List.cons_append, List.nil_append, List.length_append,
      List.length_cons, List.length_nil] at hahead hfront ⊢
    exact row.agree hrow hahead (by omega) fun hquoted => ⟨hquote cs hquoted, hquote cs' hquoted⟩

end

end Whole

section Exchange

variable {front x y after : List Char} {f : Formula}

/-- What two texts have alike in which one stretch stands for another. -/
def overlap (front x y after : List Char) : Overlap :=
  ⟨front.length, x.length, y.length, after.length⟩

/-- Two spellings of one formula are read as that formula, and the same is left of the text. -/
theorem Spells.formulasAgree (hx : Spells x f after) (hy : Spells y f after) :
    (overlap front x y after).FormulasAgree (x ++ after) (y ++ after) := by
  intro steps steps' hsteps hsteps'
  obtain ⟨g, hg, hf⟩ :=
    hx.reads (overlap front x y after).size _ (hx.begins.append after).dropBlanks_eq
  obtain ⟨g', hg', hf'⟩ :=
    hy.reads (overlap front x y after).size' _ (hy.begins.append after).dropBlanks_eq
  rw [hg.readOne_eq hsteps, hg'.readOne_eq hsteps']
  exact .ok ⟨hf.trans hf'.symm, rfl, Nat.le_refl _⟩

/-- Where a formula is expected one spelling of a formula may be put in the place of another, and
what is read of the whole text stays the same. -/
theorem ExpectsFormula.exchange (hfront : ExpectsFormula front) (hx : Spells x f after)
    (hy : Spells y f after) :
    Parallel (overlap front x y after).SameError (fun f g => f.unplaced = g.unplaced)
      (readChars (front ++ (x ++ after))) (readChars (front ++ (y ++ after))) := by
  have hbegins {text : List Char} (h : Spells text f after) :
      BeginsFormula (dropBlanks (text ++ after)) := by
    rw [(h.begins.append after).dropBlanks_eq]
    exact h.begins.append after
  have hfacing : (overlap front x y after).Facing 0 (x ++ after) (y ++ after) :=
    ⟨by simp [overlap], by simp [overlap], hbegins hx, hbegins hy⟩
  exact hfront.agree (hx.formulasAgree hy) hfacing rfl

end Exchange

end IndicatorFormula.Formula
