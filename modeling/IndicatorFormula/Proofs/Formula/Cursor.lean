import IndicatorFormula.Proofs.Formula.Tokens

/-!
# Reading with a cursor

A text can be read in place, with a cursor that runs over it. Here the reader is written so,
with a check at every move and at every look at the text: it comes to a halt if the cursor goes
back or leaves the text, if it looks where no character stands, or if a token that is taken for a
number is none. There is no count of steps: that the cursor has moved on since a formula began is
what ends the recursion, and where it has not the reader comes to a halt as well. None of this
ever happens. On every text the reading ends with the formula or the error that the text is read
as.
-/

namespace IndicatorFormula.Formula

open Text Decimal

/-- Why a reading stops without a formula. -/
inductive Halt where
  /-- The text is refused for a problem at a place, which need not lie in the text. -/
  | refused (problem : Problem) (position : Int)
  /-- A character is looked for where none stands. -/
  | beyond (index : Nat)
  /-- The cursor goes back, leaves the text or has not moved on. -/
  | astray (here there : Nat)
  /-- What is taken for a number is none. -/
  | noNumber (token : List Char)

/-- An error of the reader as a reason to stop. -/
def Halt.ofError (e : ReadError) : Halt := .refused e.problem e.position

/-- A reading moves the cursor and gives something or stops. -/
abbrev Reading := StateT Nat (Except Halt)

namespace Cursor

section Reader

variable (t : List Char)

def refuse {β : Type} (problem : Problem) (position : Int) : Reading β :=
  throw (.refused problem position)

/-- Look at the character at an index. -/
def look (i : Nat) : Reading Char :=
  match t[i]? with
  | some c => pure c
  | none => throw (.beyond i)

/-- Move the cursor, never back and never out of the text. -/
def moveTo (there : Nat) : Reading Unit := do
  let here ← get
  if here ≤ there ∧ there ≤ t.length then set there else throw (.astray here there)

/-- The cursor, which has to have moved on since it was at an index. -/
def movedOn (since : Nat) : Reading {here : Nat // since < here ∧ here ≤ t.length} := do
  let here ← get
  if h : since < here ∧ here ≤ t.length then return ⟨here, h⟩ else throw (.astray since here)

def atEnd : Reading Bool := return decide (t.length ≤ (← get))

/-- Move over the blanks at the cursor, which is at an index. -/
def skipBlanksAt (here : Nat) : Reading Unit := do
  if _h : here < t.length then
    if isBlank (← look t here) then
      moveTo t (here + 1)
      skipBlanksAt (here + 1)
termination_by t.length - here

def skipBlanks : Reading Unit := do skipBlanksAt t (← get)

/-- The next character that is no blank. -/
def peek : Reading (Option Char) := do
  skipBlanks t
  if ← atEnd t then return none else return some (← look t (← get))

def isWordCharAt (i : Nat) : Reading Bool := do
  if i < t.length then return isWordChar (← look t i) else return false

/-- The end of the number that begins at an index, unless it runs into a word. -/
def numberEnd? (start : Nat) : Reading (Option Nat) :=
  match Numeral.scan? (t.drop start) with
  | none => return none
  | some (n, _) => do
    let stop := start + n.text.length
    return if ← isWordCharAt t stop then none else some stop

/-- The number that a whole token spells. -/
def convert (token : List Char) : Reading Float :=
  match Numeral.scan? token with
  | some (n, []) => pure n.value
  | _ => throw (.noNumber token)

def numberUpTo (start stop : Nat) : Reading Formula := do
  moveTo t stop
  let token := t.extract start stop
  if (← peek t) = some '(' then refuse (.invalidName (String.ofList token)) start
  else
    let x ← convert token
    if x.isFinite then return number x start else refuse .outOfRange start

def quotedText : Reading Formula := do
  let start ← get
  let quote ← look t start
  match (t.drop (start + 1)).idxOf? quote with
  | none => refuse .unterminatedText start
  | some length =>
    let stop := start + 1 + length
    moveTo t (stop + 1)
    return literal (String.ofList (t.extract (start + 1) stop)) (start + 1)

/-- Go from an index to the parenthesis that closes a text, given how many inner ones are open. -/
def closeRaw (name : String) (opening depth here : Nat) : Reading Unit := do
  if _h : here < t.length then
    let c ← look t here
    if isQuote c then refuse (.quoteInRawText name) here
    else if c = ')' ∧ depth = 0 then return
    else
      moveTo t (here + 1)
      closeRaw name opening (depthBehind depth c) (here + 1)
  else refuse (.neverClosed name) opening
termination_by t.length - here

def rawText (name : String) (opening : Nat) : Reading Formula := do
  let start ← get
  closeRaw t name opening 0 start
  let stop ← get
  let raw := t.extract start stop
  moveTo t (stop + 1)
  if strip raw = [] then refuse (.emptyArguments name) start
  else
    let offset := raw.length - (dropBlanks raw).length
    return literal (String.ofList (strip raw)) (start + offset)

/-- Whether the argument of a call is taken as it stands. -/
def isRaw (name : String) : Reading Bool := do
  if takesRawText name then return !(← peek t).any isQuote else return false

mutual

/-- Read a formula, with the cursor not in front of an index. -/
def expression (since : Nat) : Reading Formula := do
  skipBlanks t
  if ← atEnd t then refuse .unexpectedEnd (← get)
  else
    let start ← get
    let c ← look t start
    if isQuote c then quotedText t
    else match ← numberEnd? t start with
      | some stop => numberUpTo t start stop
      | none =>
        let token := (splitWord (t.drop start)).1
        if token = [] then refuse (.unexpectedCharacter c) start
        else
          moveTo t (start + token.length)
          if (← peek t) = some '(' then
            if isFunctionName token then callOf since (capitals token) start
            else refuse (.invalidName (String.ofList token)) start
          else return indicator (String.ofList token) start
termination_by (t.length - since, 1)

/-- Read a call from its parenthesis on. -/
def callOf (since : Nat) (name : String) (start : Nat) : Reading Formula := do
  skipBlanks t
  let opening ← get
  moveTo t (opening + 1)
  if ← isRaw t name then return call name [← rawText t name opening] start
  else if (← peek t) = some ')' then refuse (.emptyArguments name) (← get)
  else
    let ⟨here, _⟩ ← movedOn t since
    return call name (← arguments here name opening []) start
termination_by (t.length - since, 0)

/-- Read arguments, given those before the cursor. -/
def arguments (since : Nat) (name : String) (opening : Nat) (given : List Formula) :
    Reading (List Formula) := do
  let args := given ++ [← expression since]
  skipBlanks t
  if ← atEnd t then refuse (.neverClosed name) opening
  else
    let here ← get
    let c ← look t here
    if c = ',' then
      moveTo t (here + 1)
      if (← peek t) = some ')' then refuse (.trailingComma name) ((← get : Nat) - 1)
      else
        let ⟨here, _⟩ ← movedOn t since
        arguments here name opening args
    else if c = ')' then
      moveTo t (here + 1)
      return args
    else refuse (.expectedSeparator name) here
termination_by (t.length - since, 2)

end

/-- Read a whole text, with the cursor in front of it. -/
def whole : Reading Formula := do
  skipBlanks t
  if ← atEnd t then refuse .emptyFormula 0
  else
    let f ← expression t (← get)
    skipBlanks t
    if ← atEnd t then return f
    else
      let here ← get
      let c ← look t here
      if c = ')' then refuse .unbalancedClose here else refuse (.trailingInput c) here

end Reader

section Steps

variable {t cs xs : List Char} {c : Char} {β γ : Type} {here there : Nat}

theorem run_bind_of_run {m : Reading β} {k : β → Reading γ} {x : β}
    (h : m.run here = pure (x, there)) : (m >>= k).run here = (k x).run there := by
  rw [StateT.run_bind, h, pure_bind]

/-- A sequence halts where its first part halts. -/
theorem run_bind_of_halt {m : Reading β} {k : β → Reading γ} {why : Halt}
    (h : m.run here = throw why) : (m >>= k).run here = throw why := by
  rw [StateT.run_bind, h]
  rfl

theorem run_get_bind (k : Nat → Reading γ) : (get >>= k).run here = (k here).run here := rfl

theorem run_look (h : c :: cs <:+ t) :
    (look t (place t.length (c :: cs))).run here = pure (c, here) := by
  simp [look, getElem?_place h]

theorem run_moveTo (h : here ≤ place t.length cs) :
    (moveTo t (place t.length cs)).run here = pure ((), place t.length cs) := by
  simp [moveTo, h, place_le]

/-- The machine moves over a run of characters. -/
theorem run_moveTo_run (h : xs ++ cs <:+ t) (hle : here ≤ place t.length (xs ++ cs)) :
    (moveTo t (place t.length (xs ++ cs) + xs.length)).run here =
      pure ((), place t.length cs) := by
  rw [← place_append_run h]
  exact run_moveTo (Nat.le_trans hle (place_mono t.length (List.suffix_append xs cs)))

theorem run_moveTo_next (h : c :: cs <:+ t) (hle : here ≤ place t.length (c :: cs)) :
    (moveTo t (place t.length (c :: cs) + 1)).run here = pure ((), place t.length cs) :=
  @run_moveTo_run t cs [c] here h hle

theorem run_movedOn {since : Nat} (h : since < place t.length cs) :
    (movedOn t since).run (place t.length cs) =
      pure (⟨place t.length cs, h, place_le t.length cs⟩, place t.length cs) := by
  simp [movedOn, h, place_le]

/-- The machine is at the end when nothing is left. -/
theorem run_atEnd (h : cs <:+ t) :
    (atEnd t).run (place t.length cs) = pure (decide (cs = []), place t.length cs) := by
  have hend : t.length ≤ place t.length cs ↔ cs = [] := by
    have hle := h.length_le
    rw [place, ← List.length_eq_zero_iff]
    omega
  simp [atEnd, hend]

/-- The place of a character is inside the text. -/
theorem place_lt_length (h : c :: cs <:+ t) : place t.length (c :: cs) < t.length := by
  have hle := place_le t.length cs
  rw [place_cons h] at hle
  exact hle

/-- The machine skips just the blanks. -/
theorem run_skipBlanks (h : cs <:+ t) :
    (skipBlanks t).run (place t.length cs) = pure ((), place t.length (dropBlanks cs)) := by
  rw [skipBlanks, run_get_bind]
  induction cs with
  | nil =>
    rw [skipBlanksAt, place_nil, dif_neg (Nat.lt_irrefl _)]
    rfl
  | cons c cs ih =>
    rw [skipBlanksAt, dif_pos (place_lt_length h), run_bind_of_run (run_look h)]
    by_cases hblank : isBlank c = true
    · rw [if_pos hblank, run_bind_of_run (run_moveTo_next h (Nat.le_refl _)), ← place_cons h,
        ih ((List.suffix_cons c cs).trans h), dropBlanks, dropBlanks,
        List.dropWhile_cons_of_pos hblank]
    · rw [if_neg hblank, dropBlanks, List.dropWhile_cons_of_neg hblank]
      rfl

/-- A reading goes on behind the blanks, with the character there unless the text ends. -/
theorem run_next (h : cs <:+ t) (ended : Reading γ) (next : Nat → Char → Reading γ) :
    (do
      skipBlanks t
      if ← atEnd t then ended
      else
        let here ← get
        let c ← look t here
        next here c : Reading γ).run (place t.length cs) =
      match dropBlanks cs with
      | [] => ended.run t.length
      | c :: rest => (next (place t.length (c :: rest)) c).run (place t.length (c :: rest)) := by
  have hdrop := (dropBlanks_suffix cs).trans h
  rw [run_bind_of_run (run_skipBlanks h), run_bind_of_run (run_atEnd hdrop)]
  cases hcs : dropBlanks cs with
  | nil => rfl
  | cons c rest =>
    rw [hcs] at hdrop
    exact run_bind_of_run (run_look hdrop)

/-- The machine peeks at the first character that is not a blank. -/
theorem run_peek (h : cs <:+ t) :
    (peek t).run (place t.length cs) =
      pure ((dropBlanks cs).head?, place t.length (dropBlanks cs)) := by
  have hnext := run_next h (pure none) fun _ c => pure (some c)
  rw [peek]
  cases hcs : dropBlanks cs with
  | nil => exact hnext.trans (by rw [hcs]; rfl)
  | cons c rest => exact hnext.trans (by rw [hcs]; rfl)

/-- The machine tells whether a word character stands at a place. -/
theorem run_isWordCharAt (h : cs <:+ t) :
    (isWordCharAt t (place t.length cs)).run here = pure (startsWith isWordChar cs, here) := by
  cases cs with
  | nil => simp [isWordCharAt, place, startsWith]
  | cons c cs =>
    rw [isWordCharAt, if_pos (place_lt_length h), run_bind_of_run (run_look h)]
    rfl

end Steps

section Agreement

variable {t : List Char} {β γ : Type} {here : Nat}

/-- A run does what a step does to what is left of the text. The blanks behind what is read may
be passed already. Of a step that gives up nothing is said. -/
def Agrees (t : List Char) (run : Except Halt (β × Nat)) : Step β → Prop
  | .ok (x, rest) => ∃ behind, behind <:+ t ∧ dropBlanks behind = dropBlanks rest ∧
      run = pure (x, place t.length behind)
  | .error e => e.problem ≠ .tooDeep → run = throw (.ofError e)

theorem agrees_error {e : ReadError} {run : Except Halt (β × Nat)}
    (h : run = throw (.ofError e)) : Agrees t run (.error e) := fun _ => h

theorem agrees_ok {x : β} {rest : List Char} {run : Except Halt (β × Nat)}
    (hrest : rest <:+ t) (h : run = pure (x, place t.length rest)) : Agrees t run (.ok (x, rest)) :=
  ⟨rest, hrest, rfl, h⟩

/-- Sequences agree if their parts do, whatever blanks were skipped between them. -/
theorem Agrees.bind {m : Reading β} {k : β → Reading γ} {step : Step β}
    {next : β × List Char → Step γ} (h : Agrees t (m.run here) step)
    (hk : ∀ x rest behind, step = .ok (x, rest) → behind <:+ t →
      dropBlanks behind = dropBlanks rest →
      Agrees t ((k x).run (place t.length behind)) (next (x, rest))) :
    Agrees t ((m >>= k).run here) (Except.bind step next) := by
  cases step with
  | error e => exact fun he => run_bind_of_halt (h he)
  | ok r =>
    obtain ⟨x, rest⟩ := r
    obtain ⟨behind, hbehind, hrest, hrun⟩ := h
    rw [run_bind_of_run hrun]
    exact hk x rest behind rfl hbehind hrest

/-- Mapped results agree if the results do. -/
theorem Agrees.map {m : Reading β} {step : Step β} (h : Agrees t (m.run here) step)
    (f : β → γ) :
    Agrees t ((do return f (← m) : Reading γ).run here) (step.map fun r => (f r.1, r.2)) := by
  have hmap : (step.map fun r => (f r.1, r.2)) = Except.bind step fun r => .ok (f r.1, r.2) := by
    cases step <;> rfl
  rw [hmap]
  exact h.bind fun x rest behind _ hbehind hrest => ⟨behind, hbehind, hrest, rfl⟩

end Agreement

section Leaves

variable {t cs rest : List Char} {c quote : Char} {here : Nat}

theorem head?_eq_some_iff_startsWith : cs.head? = some c ↔ startsWith (· = c) cs = true := by
  cases cs <;> simp [startsWith]

theorem any_head?_eq_startsWith (p : Char → Bool) (cs : List Char) :
    cs.head?.any p = startsWith p cs := by
  cases cs <;> rfl

/-- A closing quote is found behind the text that it closes. -/
theorem idxOf?_append_run {body : List Char} (h : quote ∉ body) :
    (body ++ quote :: rest).idxOf? quote = some body.length := by
  induction body with
  | nil => simp [List.idxOf?_cons]
  | cons c body ih =>
    obtain ⟨hc, hbody⟩ := not_or.mp (List.mem_cons.not.mp h)
    simp [List.idxOf?_cons, Ne.symm hc, ih hbody]

/-- The machine reads a quoted text as the recursive reader does. -/
theorem quotedText_agrees (h : quote :: cs <:+ t) :
    Agrees t ((quotedText t).run (place t.length (quote :: cs)))
      (readQuoted t.length quote cs) := by
  have hcs := (List.suffix_cons quote cs).trans h
  rw [quotedText, run_get_bind, run_bind_of_run (run_look h), ← place_cons h, drop_place hcs]
  by_cases hquote : quote ∈ cs
  · obtain ⟨body, rest, rfl, hbody⟩ := List.eq_append_cons_of_mem hquote
    have hrest := (List.suffix_append body _).trans hcs
    rw [idxOf?_append_run hbody, readQuoted_eq hbody]
    simp only
    have hle : place t.length (quote :: (body ++ quote :: rest)) ≤ place t.length (quote :: rest) :=
      place_mono _ (List.suffix_append (quote :: body) _)
    rw [← place_append_run hcs, run_bind_of_run (run_moveTo_next hrest hle), extract_place hcs]
    exact agrees_ok ((List.suffix_cons quote rest).trans hrest) rfl
  · have hdrop : cs.dropWhile (· ≠ quote) = [] :=
      List.dropWhile_eq_nil_iff.mpr fun c hc => by simpa using ne_of_mem_of_not_mem hc hquote
    rw [List.idxOf?_eq_none_iff.mpr hquote, readQuoted, hdrop]
    exact agrees_error rfl

/-- The machine finds the end of a number where the recursive reader does. -/
theorem run_numberEnd? (h : cs <:+ t) :
    (numberEnd? t (place t.length cs)).run here =
      pure ((wholeNumeral? cs).map fun r => place t.length r.2, here) := by
  rw [numberEnd?, drop_place h, wholeNumeral?]
  cases hscan : Numeral.scan? cs with
  | none => rfl
  | some r =>
    obtain ⟨n, rest⟩ := r
    obtain ⟨rfl, -⟩ := Numeral.scan?_eq_some_iff.mp hscan
    have hrest := (List.suffix_append n.text rest).trans h
    simp only
    rw [← place_append_run h, run_bind_of_run (run_isWordCharAt hrest)]
    cases hword : startsWith isWordChar rest <;> simp [Option.filter, hword]

/-- The machine reads a number as the recursive reader does. -/
theorem numberUpTo_agrees {n : Numeral} (h : n.text ++ rest <:+ t)
    (hn : wholeNumeral? (n.text ++ rest) = some (n, rest)) :
    Agrees t ((numberUpTo t (place t.length (n.text ++ rest)) (place t.length rest)).run
        (place t.length (n.text ++ rest)))
      (readNumber (place t.length (n.text ++ rest)) n rest) := by
  have hrest := (List.suffix_append n.text rest).trans h
  have hconvert : (convert n.text).run (place t.length (dropBlanks rest)) =
      pure (n.value, place t.length (dropBlanks rest)) := by
    have hwell := (wholeNumeral?_eq_some_iff.mp hn).2.1.wellFormed
    have hscan := @scan?_text n hwell [] rfl fun _ => rfl
    rw [List.append_nil] at hscan
    simp [convert, hscan]
  rw [numberUpTo, run_bind_of_run (run_moveTo (place_mono _ (List.suffix_append n.text rest)))]
  rw [extract_place h, run_bind_of_run (run_peek hrest), readNumber]
  simp only [head?_eq_some_iff_startsWith]
  split
  · exact agrees_error rfl
  · rw [run_bind_of_run hconvert]
    cases n.value.isFinite with
    | true => exact ⟨dropBlanks rest, (dropBlanks_suffix rest).trans hrest,
        dropBlanks_dropBlanks rest, rfl⟩
    | false => exact agrees_error rfl

/-- The cursor goes to the end of the span of a text that is taken as it stands. -/
theorem run_closeRaw (name : String) (opening depth : Nat) (h : cs <:+ t) :
    (closeRaw t name opening depth (place t.length cs)).run (place t.length cs) =
      match (rawSpan depth cs).2 with
      | [] => throw (.ofError ⟨.neverClosed name, opening⟩)
      | c :: after =>
        if isQuote c then throw (.ofError ⟨.quoteInRawText name, place t.length (c :: after)⟩)
        else pure ((), place t.length (c :: after)) := by
  induction cs generalizing depth with
  | nil =>
    rw [closeRaw, place_nil, dif_neg (Nat.lt_irrefl _)]
    rfl
  | cons c cs ih =>
    rw [closeRaw, dif_pos (place_lt_length h), run_bind_of_run (run_look h)]
    by_cases hquote : isQuote c = true
    · rw [if_pos hquote, rawSpan_cons_of_stop cs (.inl hquote)]
      simp only [if_pos hquote]
      rfl
    · rw [if_neg hquote]
      by_cases hclose : c = ')' ∧ depth = 0
      · rw [if_pos hclose, rawSpan_cons_of_stop cs (.inr hclose)]
        simp only [if_neg hquote]
        rfl
      · rw [if_neg hclose, run_bind_of_run (run_moveTo_next h (Nat.le_refl _)), ← place_cons h,
          ih _ ((List.suffix_cons c cs).trans h),
          rawSpan_cons_of_go cs (by simpa using hquote) hclose]

/-- The machine reads raw text as the recursive reader does. -/
theorem rawText_agrees (name : String) (start opening : Nat) (h : cs <:+ t)
    (hcs : startsWith isBlank cs = false) :
    Agrees t ((do return call name [← rawText t name opening] start : Reading Formula).run
        (place t.length cs))
      (readRaw t.length name start opening cs) := by
  have hclose := run_closeRaw name opening 0 h
  have hspan := rawSpan_append 0 cs
  unfold readRaw
  simp only
  cases hrest : (rawSpan 0 cs).2 with
  | nil =>
    rw [hrest] at hclose
    refine agrees_error (run_bind_of_halt ?_)
    rw [rawText, run_get_bind]
    exact run_bind_of_halt hclose
  | cons c after =>
    rw [hrest] at hclose hspan
    generalize (rawSpan 0 cs).1 = raw at hspan
    simp only at hclose ⊢
    split at hclose
    · rename_i hquote
      rw [if_pos hquote]
      refine agrees_error (run_bind_of_halt ?_)
      rw [rawText, run_get_bind]
      exact run_bind_of_halt hclose
    · rename_i hquote
      rw [if_neg hquote]
      rw [← hspan] at h hcs
      have hrest : c :: after <:+ t := (List.suffix_append raw _).trans h
      have hmove := run_moveTo_next hrest (Nat.le_refl _)
      rw [StateT.run_bind, rawText, run_get_bind, run_bind_of_run hclose, run_get_bind, ← hspan,
        extract_place h, run_bind_of_run hmove]
      split
      · exact agrees_error rfl
      · have hfront := dropBlanks_of_startsWith (startsWith_of_isPrefix (List.prefix_append ..) hcs)
        rw [hfront, Nat.sub_self]
        exact agrees_ok ((List.suffix_cons c after).trans hrest) rfl

end Leaves

section Calls

variable {t cs left inside : List Char} {name : String} {start since opening steps : Nat}

/-- The arguments at the cursor are read as those of the text are, whatever blanks stand in front
of them. -/
def ArgumentsAgree (t : List Char) (name : String) (opening steps : Nat) : Prop :=
  ∀ cs left since given, left <:+ t → dropBlanks left = dropBlanks cs →
    since ≤ place t.length left →
    Agrees t ((arguments t since name opening given).run (place t.length left))
      ((readArgs t.length name opening steps cs).map fun r => (given ++ r.1, r.2))

/-- Unless the argument is taken as it stands there is a row of arguments. -/
theorem row_agrees (ih : ArgumentsAgree t name opening steps) (h : left <:+ t)
    (hleft : dropBlanks left = dropBlanks inside) (hsince : since < place t.length left) :
    Agrees t ((do
        if (← peek t) = some ')' then refuse (.emptyArguments name) (← get)
        else
          let ⟨here, _⟩ ← movedOn t since
          return call name (← arguments t here name opening []) start : Reading Formula).run
        (place t.length left))
      (if startsWith (· = ')') (dropBlanks inside) then
        .error ⟨.emptyArguments name, place t.length (dropBlanks inside)⟩
      else (readArgs t.length name opening steps (dropBlanks inside)).map
        fun r => (call name r.1 start, r.2)) := by
  have hbody : dropBlanks inside <:+ t := hleft ▸ (dropBlanks_suffix left).trans h
  have hmoved : since < place t.length (dropBlanks inside) :=
    hleft ▸ Nat.lt_of_lt_of_le hsince (place_mono _ (dropBlanks_suffix left))
  rw [run_bind_of_run (run_peek h), hleft]
  simp only [head?_eq_some_iff_startsWith]
  split
  · exact agrees_error rfl
  · rw [run_bind_of_run (run_movedOn hmoved)]
    have hargs := ih (dropBlanks inside) (dropBlanks inside) _ [] hbody rfl (Nat.le_refl _)
    have hnone : ((readArgs t.length name opening steps (dropBlanks inside)).map
        fun r => ([] ++ r.1, r.2)) = readArgs t.length name opening steps (dropBlanks inside) := by
      cases readArgs t.length name opening steps (dropBlanks inside) <;> rfl
    rw [hnone] at hargs
    exact hargs.map fun args => call name args start

/-- The machine reads a call as the recursive reader does, if it does so for the arguments. -/
theorem callOf_agrees (ih : ArgumentsAgree t name (place t.length ('(' :: inside)) steps)
    (h : '(' :: inside <:+ t) (hsince : since ≤ place t.length ('(' :: inside)) :
    Agrees t ((callOf t since name start).run (place t.length ('(' :: inside)))
      (readCall t.length name start (place t.length ('(' :: inside))
        (readArgs t.length name (place t.length ('(' :: inside)) steps) (dropBlanks inside)) := by
  have hinside := (List.suffix_cons '(' inside).trans h
  have hbody := (dropBlanks_suffix inside).trans hinside
  have hskip := run_skipBlanks h
  rw [@dropBlanks_of_startsWith ('(' :: inside) rfl] at hskip
  have hmove := run_moveTo_next h (Nat.le_refl _)
  have hmoved : since < place t.length inside := place_cons h ▸ Nat.lt_succ_of_le hsince
  rw [callOf, run_bind_of_run hskip, run_get_bind, run_bind_of_run hmove, isRaw, readCall]
  cases htakes : takesRawText name with
  | false =>
    simp only [Bool.false_and, Bool.false_eq_true, if_false, pure_bind]
    exact row_agrees ih hinside rfl hmoved
  | true =>
    simp only [Bool.true_and, if_true, bind_assoc, pure_bind]
    rw [run_bind_of_run (run_peek hinside)]
    simp only [any_head?_eq_startsWith]
    split
    · exact rawText_agrees name start _ hbody (startsWith_dropWhile isBlank inside)
    · exact row_agrees ih hbody (dropBlanks_dropBlanks inside)
        (Nat.lt_of_lt_of_le hmoved (place_mono _ (dropBlanks_suffix inside)))

/-- The formula at the cursor is read as that of the text is, whatever blanks stand in front of
it. -/
def ExpressionAgrees (t : List Char) (steps : Nat) : Prop :=
  ∀ cs left since, left <:+ t → dropBlanks left = dropBlanks cs → since ≤ place t.length left →
    Agrees t ((expression t since).run (place t.length left)) (readOne t.length steps cs)

/-- A word is a call if a parenthesis is opened behind it, and an indicator otherwise. -/
theorem word_agrees (ih : ∀ name opening, ArgumentsAgree t name opening steps)
    {token behind : List Char} (h : token ++ behind <:+ t)
    (hsince : since ≤ place t.length (token ++ behind)) :
    Agrees t ((do
        if (← peek t) = some '(' then
          if isFunctionName token then callOf t since (capitals token) start
          else refuse (.invalidName (String.ofList token)) start
        else return indicator (String.ofList token) start : Reading Formula).run
        (place t.length behind))
      (match dropBlanks behind with
      | '(' :: inside =>
        if isFunctionName token then
          readCall t.length (capitals token) start (place t.length ('(' :: inside))
            (readArgs t.length (capitals token) (place t.length ('(' :: inside)) steps)
            (dropBlanks inside)
        else .error ⟨.invalidName (String.ofList token), start⟩
      | _ => .ok (indicator (String.ofList token) start, behind)) := by
  have hbehind := (List.suffix_append token behind).trans h
  have hafter := (dropBlanks_suffix behind).trans hbehind
  have hopen := (dropBlanks_suffix behind).trans (List.suffix_append token behind)
  rw [run_bind_of_run (run_peek hbehind)]
  split
  · rename_i hhead
    obtain ⟨inside, hopening⟩ := List.head?_eq_some_iff.mp hhead
    rw [hopening] at hafter hopen ⊢
    simp only
    split
    · exact callOf_agrees (ih _ _) hafter (Nat.le_trans hsince (place_mono _ hopen))
    · exact agrees_error rfl
  · rename_i hhead
    split
    · rename_i hopening
      exact absurd (by rw [hopening]; rfl) hhead
    · exact ⟨dropBlanks behind, hafter, dropBlanks_dropBlanks behind, rfl⟩

/-- The machine reads a formula as the recursive reader does, if it does so for arguments. -/
theorem expression_agrees (ih : ∀ name opening, ArgumentsAgree t name opening steps) :
    ExpressionAgrees t (steps + 1) := by
  intro cs left since h hleft hsince
  have hdrop := (dropBlanks_suffix left).trans h
  have hsince' := Nat.le_trans hsince (place_mono _ (dropBlanks_suffix left))
  rw [expression, run_next h, readOne]
  rw [hleft] at hdrop hsince' ⊢
  cases hcs : dropBlanks cs with
  | nil => exact agrees_error rfl
  | cons c tail =>
    rw [hcs] at hdrop hsince'
    simp only
    split
    · exact quotedText_agrees hdrop
    · rw [run_bind_of_run (run_numberEnd? hdrop)]
      cases hnumeral : wholeNumeral? (c :: tail) with
      | some r =>
        obtain ⟨n, after⟩ := r
        have htext := (wholeNumeral?_eq_some_iff.mp hnumeral).1
        rw [htext] at hdrop hnumeral ⊢
        exact numberUpTo_agrees hdrop hnumeral
      | none =>
        have htext := splitWord_append (c :: tail)
        simp only [Option.map_none, drop_place hdrop]
        generalize (splitWord (c :: tail)).1 = token at htext ⊢
        generalize (splitWord (c :: tail)).2 = behind at htext ⊢
        rw [← htext] at hdrop hsince' ⊢
        split
        · exact agrees_error rfl
        · rw [run_bind_of_run (run_moveTo_run hdrop (Nat.le_refl _))]
          exact word_agrees ih hdrop hsince'

/-- Behind a formula and the character after it the cursor has moved on. -/
theorem place_lt_of_readOne {first : Formula} {after more : List Char} {c : Char}
    (hone : readOne t.length steps cs = .ok (first, after)) (hmore : dropBlanks after = c :: more)
    (h : c :: more <:+ t) : place t.length (dropBlanks cs) < place t.length more := by
  have hlt := ((reads_of_readOne steps).1 _ _ _ hone).length_lt
  have hafter := (dropBlanks_suffix after).length_le
  have hle := h.length_le
  rw [hmore] at hafter
  rw [List.length_cons] at hafter hle
  unfold place
  omega

/-- The machine reads arguments as the recursive reader does, if it does so one step before. -/
theorem arguments_agree (one : ExpressionAgrees t steps)
    (ih : ArgumentsAgree t name opening steps) : ArgumentsAgree t name opening (steps + 1) := by
  intro cs left since given h hleft hsince
  have hbind : ((readArgs t.length name opening (steps + 1) cs).map fun r => (given ++ r.1, r.2)) =
      Except.bind (readOne t.length steps cs) fun r =>
        (readRest t.length name opening (readArgs t.length name opening steps) r.1 r.2).map
          fun r => (given ++ r.1, r.2) := by
    rw [readArgs]
    cases readOne t.length steps cs <;> rfl
  rw [arguments, hbind]
  refine (one cs left since h hleft hsince).bind fun first after behind hone hbehind hafter => ?_
  have hdrop := (dropBlanks_suffix behind).trans hbehind
  rw [run_next hbehind, readRest]
  rw [hafter] at hdrop ⊢
  cases hmore : dropBlanks after with
  | nil => exact agrees_error rfl
  | cons c more =>
    rw [hmore] at hdrop
    have hrest := (List.suffix_cons c more).trans hdrop
    have hmove := run_moveTo_next hdrop (Nat.le_refl _)
    simp only
    split
    · rw [run_bind_of_run hmove, run_bind_of_run (run_peek hrest)]
      simp only [head?_eq_some_iff_startsWith]
      split
      · -- Something stands in front of the parenthesis, the comma at the least.
        have hpos : 1 ≤ place t.length (dropBlanks more) := by
          have hmono := place_mono t.length (dropBlanks_suffix more)
          rw [place_cons hdrop] at hmono
          omega
        refine agrees_error ?_
        rw [run_get_bind, Halt.ofError, Nat.cast_pred hpos]
        rfl
      · have hmoved : since < place t.length (dropBlanks more) :=
          calc since ≤ place t.length left := hsince
            _ ≤ place t.length (dropBlanks left) := place_mono _ (dropBlanks_suffix left)
            _ < place t.length more := hleft ▸ place_lt_of_readOne hone hmore hdrop
            _ ≤ place t.length (dropBlanks more) := place_mono _ (dropBlanks_suffix more)
        rw [run_bind_of_run (run_movedOn hmoved)]
        have hargs := ih more (dropBlanks more) _ (given ++ [first])
          ((dropBlanks_suffix more).trans hrest) (dropBlanks_dropBlanks more) (Nat.le_refl _)
        have hmap : ((readArgs t.length name opening steps more).map
            fun r => ((given ++ [first]) ++ r.1, r.2)) =
            ((readArgs t.length name opening steps more).map fun r => (first :: r.1, r.2)).map
              fun r => (given ++ r.1, r.2) := by
          cases readArgs t.length name opening steps more <;> simp [Except.map]
        rw [← hmap]
        exact hargs
    · split
      · rw [run_bind_of_run hmove]
        exact agrees_ok hrest rfl
      · exact agrees_error rfl

/-- The cursor reads as the reader does, for any count of steps. -/
theorem agrees_of_steps (t : List Char) (steps : Nat) :
    ExpressionAgrees t steps ∧ ∀ name opening, ArgumentsAgree t name opening steps := by
  induction steps with
  | zero =>
    exact ⟨fun cs left since _ _ _ h => absurd rfl h,
      fun name opening cs left since given _ _ _ h => absurd rfl h⟩
  | succ steps ih =>
    exact ⟨expression_agrees ih.2, fun name opening => arguments_agree ih.1 (ih.2 name opening)⟩

end Calls

theorem map_bind_eq {β γ δ : Type} (step : Except ReadError β) (next : β → Except ReadError γ)
    (f : γ → δ) : (Except.bind step next).map f = Except.bind step fun x => (next x).map f := by
  cases step <;> rfl

/-- The machine reads a whole text as the recursive reader does. -/
theorem whole_agrees (t : List Char) :
    Agrees t ((whole t).run 0) ((readChars t).map fun f => (f, [])) := by
  have hdrop := dropBlanks_suffix t
  have hskip := run_skipBlanks (List.suffix_refl t)
  have hone := (agrees_of_steps t (t.length + 1)).1 t (dropBlanks t) _ hdrop
    (dropBlanks_dropBlanks t) (Nat.le_refl _)
  rw [show place t.length t = 0 from Nat.sub_self _] at hskip
  rw [whole, run_bind_of_run hskip, run_bind_of_run (run_atEnd hdrop), readChars]
  by_cases ht : dropBlanks t = []
  · rw [if_pos (decide_eq_true ht), if_pos ht]
    exact agrees_error rfl
  · rw [if_neg (by simpa using ht), if_neg ht, run_get_bind]
    change Agrees t _ ((Except.bind (readOne ..) fun r => finish t.length r.1 r.2).map _)
    rw [map_bind_eq]
    refine hone.bind fun f rest behind _ hbehind hrest => ?_
    rw [run_next hbehind, hrest, finish]
    cases dropBlanks rest with
    | nil => exact agrees_ok List.nil_suffix rfl
    | cons c more =>
      simp only
      split <;> exact agrees_error rfl

/-- On every text the reading with the cursor ends with what the text is read as. -/
theorem run_whole (t : List Char) :
    (whole t).run' 0 = (readChars t).mapError Halt.ofError := by
  have h := whole_agrees t
  rw [StateT.run'_eq]
  cases hread : readChars t with
  | ok f =>
    rw [hread] at h
    obtain ⟨behind, -, -, hrun⟩ := h
    rw [hrun]
    rfl
  | error e =>
    rw [hread] at h
    rw [h (readChars_ne_tooDeep hread)]
    rfl

end Cursor

end IndicatorFormula.Formula
