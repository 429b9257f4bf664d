import IndicatorFormula.Proofs.Formula.Anchors

/-!
# How far a call goes

A part of a formula goes as far as the grammar lets it be spelt. A call that was read goes from
the first letter of its name up to the parenthesis that closes it, and every part of it stands
between the two. Since the parts stand apart, each stands in one argument of a call only.
-/

namespace IndicatorFormula.Formula

open Text

/-- What spells a formula goes from one place of a text up to another. -/
def Occupies (t : List Char) (f : Formula) (first last : Nat) : Prop :=
  ∃ front spelling rest, t = front ++ (spelling ++ rest) ∧ Spells spelling f.unplaced rest ∧
    front.length = first ∧ (front ++ spelling).length = last

variable {t cs rest : List Char} {name : String} {args : List Formula} {p first last size : Nat}

/-- What a formula occupies ends inside the text. -/
theorem Occupies.last_le {f : Formula} (h : Occupies t f first last) : last ≤ t.length := by
  obtain ⟨front, spelling, rest, rfl, -, -, rfl⟩ := h
  simp only [List.length_append]
  omega

/-- What is read goes from behind the blanks up to what is left. -/
theorem Reads.occupies {f : Formula} (h : Reads t.length cs f rest) (hcs : dropBlanks cs <:+ t) :
    Occupies t f (place t.length (dropBlanks cs)) (place t.length rest) := by
  obtain ⟨front, hfront⟩ := hcs
  obtain ⟨spelling, hspelling, hspells⟩ := h.spells
  refine ⟨front, spelling, rest, by rw [← hspelling, hfront], hspells, ?_, ?_⟩
  · exact (place_append hfront.symm).symm
  · exact (place_append (by rw [List.append_assoc, ← hspelling, hfront])).symm

/-- A call that is read stands behind the blanks. -/
theorem Reads.place_call (h : Reads size cs (Formula.call name args p) rest) :
    p = place size (dropBlanks cs) := by
  cases h with
  | raw text | call text => rw [text]

/-- Some text with a further character behind it ends before what follows them. -/
theorem place_add_length_lt {xs : List Char} {c : Char} (h : xs ++ c :: rest <:+ t) :
    place t.length (xs ++ c :: rest) + xs.length < place t.length rest := by
  have hlast : c :: rest <:+ t := (List.suffix_append xs _).trans h
  rw [← place_append_run h, place_cons hlast]
  exact Nat.lt_succ_self _

/-- Stripping makes no text longer. -/
theorem length_strip_le (cs : List Char) : (strip cs).length ≤ cs.length := by
  rw [strip]
  exact (List.rdropWhile_prefix ..).length_le.trans (List.dropWhile_suffix _).length_le

/-- The text of a call that takes nothing else ends before the call does: a parenthesis closes
the call behind a text that is taken as it stands, and behind a quoted one there is its quote. -/
theorem Reads.literal_lt {content : String} {q : Nat}
    (h : Reads t.length cs (Formula.call name [literal content q] p) rest)
    (hcs : dropBlanks cs <:+ t) : q + content.toList.length < place t.length rest := by
  have hinside {token behind inside : List Char} (text : dropBlanks cs = token ++ behind)
      (opening : dropBlanks behind = '(' :: inside) : dropBlanks inside <:+ t :=
    ((inside_suffix opening).trans (List.suffix_append token behind)).trans (text ▸ hcs)
  cases h with
  | @raw _ token behind inside content _ text word opening isName takesRaw unquoted span filled =>
    obtain ⟨hcontent, -⟩ := rawSpan_eq_iff.mp span
    have hlt := place_add_length_lt (hcontent ▸ hinside text opening)
    rw [String.toList_ofList, hcontent]
    exact Nat.lt_of_le_of_lt (Nat.add_le_add_left (length_strip_le content) _) hlt
  | call text word opening isName quotedText filled row =>
    cases row with
    | last first closing =>
      cases first with
      | @quoted _ body after quote quotation isQuote free =>
        rw [dropBlanks_dropBlanks] at quotation
        have hbody := (List.suffix_cons quote _).trans (quotation ▸ hinside text opening)
        rw [String.toList_ofList]
        exact Nat.lt_of_lt_of_le (place_add_length_lt hbody)
          (place_mono _ (suffix_of_dropBlanks closing))
    | more first comma filled row => cases row

mutual

/-- Every call in what is read was itself read. -/
theorem Reads.exists_of_mem {cs rest : List Char} {f : Formula} :
    Reads size cs f rest → Formula.call name args p ∈ f.parts →
      ∃ cs' rest', Reads size cs' (Formula.call name args p) rest' ∧
        dropBlanks cs' <:+ dropBlanks cs
  | .quoted .., hmem => by cases List.mem_singleton.mp hmem
  | .number .., hmem => by cases List.mem_singleton.mp hmem
  | .indicator .., hmem => by cases List.mem_singleton.mp hmem
  | .raw text word opening isName takesRaw unquoted span filled, hmem => by
    have hwhole := @Reads.raw size _ _ _ _ _ _ text word opening isName takesRaw unquoted span
      filled
    rcases mem_parts_call.mp hmem with heq | ⟨arg, harg, hmem⟩
    · exact ⟨_, _, heq ▸ hwhole, List.suffix_refl _⟩
    · rw [List.mem_singleton.mp harg] at hmem
      cases List.mem_singleton.mp hmem
  | @Reads.call _ _ token behind _ _ _ text word opening isName quotedText filled row, hmem => by
    have hwhole := Reads.call text word opening isName quotedText filled row
    rcases mem_parts_call.mp hmem with heq | ⟨arg, harg, hmem⟩
    · exact ⟨_, _, heq ▸ hwhole, List.suffix_refl _⟩
    · obtain ⟨cs', rest', hreads, hcs'⟩ := row.exists_of_mem harg hmem
      rw [dropBlanks_dropBlanks] at hcs'
      rw [text]
      exact ⟨cs', rest', hreads,
        hcs'.trans ((inside_suffix opening).trans (List.suffix_append token behind))⟩

/-- Every call among the arguments that are read was itself read. -/
theorem ReadsRow.exists_of_mem {cs rest : List Char} {others : List Formula} {arg : Formula} :
    ReadsRow size cs others rest → arg ∈ others → Formula.call name args p ∈ arg.parts →
      ∃ cs' rest', Reads size cs' (Formula.call name args p) rest' ∧
        dropBlanks cs' <:+ dropBlanks cs
  | .last first closing, harg, hmem => by
    rw [List.mem_singleton.mp harg] at hmem
    exact first.exists_of_mem hmem
  | @ReadsRow.more _ _ after others _ _ _ first comma filled row, harg, hmem => by
    rcases List.mem_cons.mp harg with heq | harg
    · exact first.exists_of_mem (heq ▸ hmem)
    · obtain ⟨cs', rest', hreads, hcs'⟩ := row.exists_of_mem harg hmem
      exact ⟨cs', rest', hreads, hcs'.trans ((dropBlanks_suffix others).trans
        ((suffix_of_dropBlanks comma).trans first.suffix))⟩

end

section Apart

variable {f g arg arg' outer : Formula} {q : Nat}

/-- A part of a part is a part. -/
theorem mem_parts_trans (hg : g ∈ f.parts) (harg : arg ∈ g.parts) : arg ∈ f.parts := by
  induction f using Formula.induction with
  | call name args p ih =>
    rcases mem_parts_call.mp hg with rfl | ⟨first, hfirst, hg⟩
    · exact harg
    · exact mem_parts_call.mpr (.inr ⟨first, hfirst, ih first hfirst hg⟩)
  | _ =>
    obtain rfl := List.mem_singleton.mp hg
    exact harg

theorem mem_places (hg : g ∈ f.parts) (hq : g.position? = some q) : q ∈ places f.parts :=
  List.mem_filterMap.mpr ⟨g, hg, hq⟩

/-- The places of a call are its own and those of its arguments. -/
theorem places_parts_call :
    places (call name args p).parts = p :: args.flatMap fun arg => places arg.parts := by
  rw [parts, allParts_eq_flatMap, places, List.filterMap_cons, position?, List.filterMap_flatMap]
  rfl

/-- Parts that stand apart in a call do so in each argument. -/
theorem pairwise_places_arg (h : (places (call name args p).parts).Pairwise (· < ·))
    (harg : arg ∈ args) : (places arg.parts).Pairwise (· < ·) := by
  rw [places_parts_call] at h
  exact (List.pairwise_flatMap.mp (List.pairwise_cons.mp h).2).1 arg harg

/-- Of parts that stand apart none stands in two arguments. -/
theorem eq_of_mem_parts (h : (places (call name args p).parts).Pairwise (· < ·))
    (hq : g.position? = some q) (harg : arg ∈ args) (hg : g ∈ arg.parts) (harg' : arg' ∈ args)
    (hg' : g ∈ arg'.parts) : arg = arg' := by
  rw [places_parts_call] at h
  have hapart := (List.pairwise_flatMap.mp (List.pairwise_cons.mp h).2).2
  have hnot : args.Pairwise fun x y => ¬(q ∈ places x.parts ∧ q ∈ places y.parts) :=
    hapart.imp fun {_ _} hlt ⟨hx, hy⟩ => Nat.lt_irrefl q (hlt q hx q hy)
  have hsymm : Std.Symm fun x y : Formula => ¬(q ∈ places x.parts ∧ q ∈ places y.parts) :=
    ⟨fun _ _ h hboth => h hboth.symm⟩
  by_contra hne
  exact hnot.forall harg harg' hne ⟨mem_places hg hq, mem_places hg' hq⟩

/-- Of parts that stand apart none stands in another that stands in it. -/
theorem eq_of_mem_parts_of_mem_parts (h : (places f.parts).Pairwise (· < ·))
    (houter : outer ∈ f.parts) (hf : f ∈ outer.parts) : outer = f := by
  cases f with
  | call name args p =>
    rcases mem_parts_call.mp houter with rfl | ⟨arg, harg, houter⟩
    · rfl
    · -- Otherwise the call would stand behind itself.
      rw [places_parts_call] at h
      have hlater := (List.pairwise_cons.mp h).1 p
        (List.mem_flatMap.mpr ⟨arg, harg, mem_places (mem_parts_trans houter hf) rfl⟩)
      exact absurd hlater (Nat.lt_irrefl p)
  | _ => exact List.mem_singleton.mp houter

end Apart

/-- A call in a formula that was read goes up to some place, before which all its parts stand
and any text that it takes ends. -/
theorem exists_occupies {text : String} {f : Formula} (h : read text = .ok f)
    (hmem : call name args p ∈ f.parts) :
    ∃ last, Occupies text.toList (call name args p) p last ∧
      (∀ q ∈ places (call name args p).parts, p ≤ q ∧ q < last) ∧
      ∀ content q, args = [literal content q] → q + content.toList.length < last := by
  obtain ⟨rest, hreads, -⟩ := readChars_ok_iff.mp h
  obtain ⟨cs', rest', hcall, hcs'⟩ := hreads.exists_of_mem hmem
  have hsuffix := hcs'.trans (dropBlanks_suffix _)
  have hoccupies := hcall.occupies hsuffix
  have hwithin := (hcall.anchored hsuffix).within
  rw [← hcall.place_call] at hoccupies hwithin
  refine ⟨_, hoccupies, hwithin, ?_⟩
  rintro content q rfl
  exact hcall.literal_lt hsuffix

end IndicatorFormula.Formula
