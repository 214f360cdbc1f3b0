import Switchboard.Toml.Literal
import Switchboard.Toml.Writer

/-!
# String literals there and back

Whatever a text holds, the literal that is written for it is read as that text:
`readString_renderText`. In basic strings this follows character by character from what an escape
is read as. Where quotes may stand side by side the run of quotes just read is carried along, since
only what follows it tells whether it closes the literal.
-/

namespace Switchboard.Toml

@[simp] theorem cons_some (c : Char) (cs rest : List Char) :
    cons c (some (cs, rest)) = some (c :: cs, rest) := rfl

/-- What does not begin with a line end has none dropped. -/
theorem newline?_eq_none {c : Char} (hn : c ≠ '\n') (hr : c ≠ '\r') (rest : List Char) :
    newline? (c :: rest) = none := by
  unfold newline?
  split
  next h => exact absurd (List.cons.inj h).1 hn
  next h => exact absurd (List.cons.inj h).1 hr
  next => rfl

theorem skipSpace_cons {c : Char} (h : isSpace c = false) (rest : List Char) :
    skipSpace (c :: rest) = c :: rest := by
  simp [skipSpace, h]

/-! ## Escapes -/

/-- A way to write a character with a backslash: what stands behind it is read as that character,
and is not a line that goes on. -/
def Escapes (p : List Char) (c : Char) : Prop :=
  ∃ d code, p = '\\' :: d :: code ∧ isSpace d = false ∧ d ≠ '\n' ∧ d ≠ '\r' ∧
    ∀ rest, readEscape (d :: (code ++ rest)) = some (c, rest)

theorem escapes_quote : Escapes ['\\', '"'] '"' :=
  ⟨'"', [], rfl, by decide, by decide, by decide, fun _ => rfl⟩

theorem escapes_backslash : Escapes ['\\', '\\'] '\\' :=
  ⟨'\\', [], rfl, by decide, by decide, by decide, fun _ => rfl⟩

/-- Two digits behind two zeros are the code of an ASCII character. -/
theorem charOfCode?_ascii {n : Nat} (hn : n < 128) :
    charOfCode? ['0', '0', Hex.upper (n / 16), Hex.upper (n % 16)] = some (Char.ofNat n) := by
  have hdigit {d : Nat} (hd : d < 16) : Hex.digitOf? 16 (Hex.upper d) = some d := by
    rw [Hex.digitOf?, Hex.digit?_upper d hd]
    exact Option.filter_some_pos (decide_eq_true hd)
  have hnumber : Hex.number? 16 ['0', '0', Hex.upper (n / 16), Hex.upper (n % 16)] = some n := by
    have hzero : Hex.digitOf? 16 '0' = some 0 := rfl
    have hsum : n / 16 * 16 + n % 16 = n := by omega
    simp [Hex.number?, hzero, hdigit (d := n / 16) (by omega), hdigit (d := n % 16) (by omega),
      hsum]
  have hvalid : n.isValidChar := .inl (by omega)
  rw [charOfCode?, hnumber]
  exact if_pos hvalid

/-- A control character has an escape. -/
theorem escapes_escapeControl {c : Char} (hc : c.toNat < 128) : Escapes (escapeControl c) c := by
  have hcode := charOfCode?_ascii hc
  rw [Char.ofNat_toNat] at hcode
  unfold escapeControl
  split
  · exact ⟨'b', [], rfl, by decide, by decide, by decide, fun _ => rfl⟩
  · exact ⟨'t', [], rfl, by decide, by decide, by decide, fun _ => rfl⟩
  · exact ⟨'n', [], rfl, by decide, by decide, by decide, fun _ => rfl⟩
  · exact ⟨'f', [], rfl, by decide, by decide, by decide, fun _ => rfl⟩
  · exact ⟨'r', [], rfl, by decide, by decide, by decide, fun _ => rfl⟩
  · refine ⟨'u', ['0', '0', Hex.upper (c.toNat / 16), Hex.upper (c.toNat % 16)], rfl, by decide,
      by decide, by decide, fun rest => ?_⟩
    simp [readEscape, readCode, hcode]

/-- What is written for the next character of a basic string, and how many quotes may follow. -/
theorem escapeFrom_cons (quotes : Nat) (long : Bool) (free : Nat) (c : Char) (cs : List Char) :
    (∃ left, c = '"' ∧ free = left + 1 ∧
      escapeFrom quotes long free (c :: cs) = '"' :: escapeFrom quotes long left cs) ∨
    (∃ p, Escapes p c ∧
      escapeFrom quotes long free (c :: cs) = p ++ escapeFrom quotes long quotes cs) ∨
    (c ≠ '"' ∧ c ≠ '\\' ∧ (isPrintable c = true ∨ c = '\n' ∧ long = true) ∧
      escapeFrom quotes long free (c :: cs) = c :: escapeFrom quotes long quotes cs) := by
  by_cases hquote : c = '"'
  · subst hquote
    cases free with
    | zero => exact .inr (.inl ⟨_, escapes_quote, rfl⟩)
    | succ left => exact .inl ⟨left, rfl, rfl, rfl⟩
  have hstep := escapeFrom.eq_def quotes long free (c :: cs)
  simp only [if_neg hquote] at hstep
  rw [hstep]
  by_cases hback : c = '\\'
  · subst hback
    exact .inr (.inl ⟨_, escapes_backslash, rfl⟩)
  rw [if_neg hback]
  by_cases hline : c = '\n' ∧ long = true
  · rw [if_pos hline]
    exact .inr (.inr ⟨hquote, hback, .inr hline, by rw [hline.1]⟩)
  rw [if_neg hline]
  by_cases hcontrol : c.toNat < 0x20 ∨ c.toNat = 0x7F
  · rw [if_pos hcontrol]
    exact .inr (.inl ⟨_, escapes_escapeControl (by omega), rfl⟩)
  · rw [if_neg hcontrol]
    refine .inr (.inr ⟨hquote, hback, .inl ?_, rfl⟩)
    simp only [isPrintable, Bool.or_eq_true, Bool.and_eq_true, decide_eq_true_eq, bne_iff_ne]
    omega

/-! ## Basic strings on one line -/

theorem readBasic_escapes {p : List Char} {c : Char} (h : Escapes p c) (rest : List Char) :
    readBasic (p ++ rest) = cons c (readBasic rest) := by
  obtain ⟨d, code, rfl, -, -, -, hread⟩ := h
  rw [List.cons_append, List.cons_append, readBasic]
  split
  next h => rw [hread] at h; cases h; rfl
  next h => rw [hread] at h; cases h

theorem readBasic_cons {c : Char} (hquote : c ≠ '"') (hback : c ≠ '\\')
    (hprintable : isPrintable c = true) (rest : List Char) :
    readBasic (c :: rest) = cons c (readBasic rest) := by
  rw [readBasic.eq_def]
  split <;> simp_all

theorem readBasic_escapeFrom (cs rest : List Char) :
    readBasic (escapeFrom 0 false 0 cs ++ '"' :: rest) = some (cs, rest) := by
  induction cs with
  | nil => rw [escapeFrom, List.nil_append, readBasic]
  | cons c cs ih =>
    rcases escapeFrom_cons 0 false 0 c cs with ⟨_, -, h, -⟩ | ⟨p, hp, h⟩ | ⟨hq, hb, hc, h⟩
    · cases h
    · rw [h, List.append_assoc, readBasic_escapes hp, ih, cons_some]
    · rcases hc with hc | ⟨-, hc⟩
      · rw [h, List.cons_append, readBasic_cons hq hb hc, ih, cons_some]
      · cases hc

/-! ## Literal strings on one line -/

/-- A character that a literal string holds as it is. -/
theorem isPrintable_of_writable {c : Char} (h : isUnwritable c = false) (hn : c ≠ '\n') :
    isPrintable c = true := by
  by_cases ht : c = '\t'
  · rw [ht]
    rfl
  · simp [isUnwritable, isPrintable, ht, hn] at h ⊢
    omega

theorem readLiteral_append {cs : List Char} (hprintable : ∀ c ∈ cs, isPrintable c = true)
    (hquote : '\'' ∉ cs) (rest : List Char) :
    readLiteral (cs ++ '\'' :: rest) = some (cs, rest) := by
  induction cs with
  | nil => rfl
  | cons c cs ih =>
    have hc : c ≠ '\'' := fun h => hquote (h ▸ List.mem_cons_self)
    rw [List.cons_append, readLiteral.eq_3 _ _ hc, if_pos (hprintable c List.mem_cons_self),
      ih (fun d hd => hprintable d (List.mem_cons_of_mem c hd))
        (fun h => hquote (List.mem_cons_of_mem c h)), cons_some]

/-! ## Strings on several lines -/

/-- A reader of literals that three quotes close, of which up to two more belong to the text. -/
structure ClosesWithThree (q : Char) (read : List Char → Option (List Char × List Char)) :
    Prop where
  close : ∀ rest, read (q :: q :: q :: rest) = some (extraQuotes q rest)
  quote : ∀ rest, (∀ left, rest ≠ q :: q :: left) → read (q :: rest) = cons q (read rest)

namespace ClosesWithThree

variable {q : Char} {read : List Char → Option (List Char × List Char)}

/-- A run of quotes in front of the closing ones. -/
theorem close_run (h : ClosesWithThree q read) {n : Nat} (hn : n ≤ 2) {d : Char} (hd : d ≠ q)
    (rest : List Char) :
    read (List.replicate n q ++ q :: q :: q :: d :: rest) =
      some (List.replicate n q, d :: rest) := by
  have hd' : (d == q) = false := beq_eq_false_iff_ne.mpr hd
  match n with
  | 0 => cases rest <;> simp [h.close, extraQuotes, hd']
  | 1 | 2 => simp [List.replicate, h.close, extraQuotes, hd']

/-- A run of quotes in front of another character. -/
theorem read_run (h : ClosesWithThree q read) {n : Nat} (hn : n ≤ 2) {d : Char} (hd : d ≠ q)
    {rest cs left : List Char} (hread : read (d :: rest) = some (cs, left)) :
    read (List.replicate n q ++ d :: rest) = some (List.replicate n q ++ cs, left) := by
  match n with
  | 0 => exact hread
  | 1 =>
    show read (q :: d :: rest) = _
    rw [h.quote _ (fun _ e => hd (List.cons.inj e).1), hread]
    rfl
  | 2 =>
    show read (q :: q :: d :: rest) = _
    rw [h.quote _ (fun _ e => hd (List.cons.inj (List.cons.inj e).2).1),
      h.quote _ (fun _ e => hd (List.cons.inj e).1), hread]
    rfl

end ClosesWithThree

theorem readLongBasic_cons {c : Char} (hback : c ≠ '\\')
    (hplain : isPrintable c = true ∨ c = '\n') {rest : List Char}
    (htriple : c = '"' → ∀ left, rest ≠ '"' :: '"' :: left) :
    readLongBasic (c :: rest) = cons c (readLongBasic rest) := by
  have hr : c ≠ '\r' := by rintro rfl; revert hplain; decide
  have hkept : (isPrintable c || c == '\n') = true := by simpa using hplain
  rw [readLongBasic.eq_def]
  split
  next h => cases h
  next h => exact absurd (List.cons.inj h).2 (htriple (List.cons.inj h).1 _)
  next h => exact absurd (List.cons.inj h).1 hback
  next h => exact absurd (List.cons.inj h).1 hr
  next h =>
    obtain ⟨rfl, rfl⟩ := List.cons.inj h
    exact if_pos hkept

theorem readLongBasic_escapes {p : List Char} {c : Char} (h : Escapes p c) (rest : List Char) :
    readLongBasic (p ++ rest) = cons c (readLongBasic rest) := by
  obtain ⟨d, code, rfl, hspace, hn, hr, hread⟩ := h
  have hline : newline? (skipSpace (d :: (code ++ rest))) = none := by
    rw [skipSpace_cons hspace, newline?_eq_none hn hr]
  rw [List.cons_append, List.cons_append, readLongBasic]
  split
  next h => rw [hline] at h; cases h
  next =>
    split
    next h => rw [hread] at h; cases h; rfl
    next h => rw [hread] at h; cases h

theorem closesWithThree_readLongBasic : ClosesWithThree '"' readLongBasic where
  close rest := by rw [readLongBasic]
  quote rest h := readLongBasic_cons (by decide) (.inl (by decide)) fun _ => h

/-- The induction is on the text, with the run of quotes that has been written but may still turn
out to close the literal. -/
theorem readLongBasic_escapeFrom (cs : List Char) {d : Char} (hd : d ≠ '"') (rest : List Char)
    (run free : Nat) (hrun : run + free = 2) :
    readLongBasic (List.replicate run '"' ++
      (escapeFrom 2 true free cs ++ '"' :: '"' :: '"' :: d :: rest)) =
      some (List.replicate run '"' ++ cs, d :: rest) := by
  have hthree := closesWithThree_readLongBasic
  induction cs generalizing run free with
  | nil =>
    rw [escapeFrom, List.nil_append, List.append_nil]
    exact hthree.close_run (by omega) hd rest
  | cons c cs ih =>
    have hnext := ih 0 2 rfl
    rw [List.replicate_zero, List.nil_append, List.nil_append] at hnext
    rcases escapeFrom_cons 2 true free c cs with
      ⟨left, rfl, rfl, h⟩ | ⟨p, hp, h⟩ | ⟨hq, hb, hc, h⟩
    · have hlonger := ih (run + 1) left (by omega)
      rw [List.replicate_succ', List.append_assoc, List.append_assoc] at hlonger
      rw [h]
      exact hlonger
    · rw [h, List.append_assoc]
      have hread := readLongBasic_escapes hp
        (escapeFrom 2 true 2 cs ++ '"' :: '"' :: '"' :: d :: rest)
      rw [hnext, cons_some] at hread
      obtain ⟨e, code, rfl, -⟩ := hp
      exact hthree.read_run (by omega) (by decide) hread
    · rw [h, List.cons_append]
      refine hthree.read_run (by omega) hq ?_
      rw [readLongBasic_cons hb (hc.imp_right And.left) (fun h => absurd h hq), hnext, cons_some]

theorem readLongLiteral_cons {c : Char} (hplain : isPrintable c = true ∨ c = '\n')
    {rest : List Char} (htriple : c = '\'' → ∀ left, rest ≠ '\'' :: '\'' :: left) :
    readLongLiteral (c :: rest) = cons c (readLongLiteral rest) := by
  have hr : c ≠ '\r' := by rintro rfl; revert hplain; decide
  have hkept : (isPrintable c || c == '\n') = true := by simpa using hplain
  rw [readLongLiteral.eq_def]
  split
  next h => cases h
  next h => exact absurd (List.cons.inj h).2 (htriple (List.cons.inj h).1 _)
  next h => exact absurd (List.cons.inj h).1 hr
  next h =>
    obtain ⟨rfl, rfl⟩ := List.cons.inj h
    exact if_pos hkept

theorem closesWithThree_readLongLiteral : ClosesWithThree '\'' readLongLiteral where
  close rest := by rw [readLongLiteral]
  quote rest h := readLongLiteral_cons (.inl (by decide)) fun _ => h

theorem le_longestRunFrom (q : Char) (cs : List Char) (run longest : Nat) :
    run ≤ longestRunFrom q run longest cs ∧ longest ≤ longestRunFrom q run longest cs := by
  induction cs generalizing run longest with
  | nil => exact ⟨Nat.le_max_left _ _, Nat.le_max_right _ _⟩
  | cons c cs ih =>
    rw [longestRunFrom]
    split
    · obtain ⟨hrun, hlongest⟩ := ih (run + 1) longest
      exact ⟨by omega, hlongest⟩
    · obtain ⟨-, hlongest⟩ := ih 0 (max run longest)
      exact ⟨by omega, by omega⟩

/-- The induction is on the text, with the run of quotes that has been written but may still turn
out to close the literal. -/
theorem readLongLiteral_append {cs : List Char}
    (hplain : ∀ c ∈ cs, isPrintable c = true ∨ c = '\n') {d : Char} (hd : d ≠ '\'')
    (rest : List Char) {run longest : Nat} (hrun : longestRunFrom '\'' run longest cs ≤ 2) :
    readLongLiteral (List.replicate run '\'' ++ (cs ++ '\'' :: '\'' :: '\'' :: d :: rest)) =
      some (List.replicate run '\'' ++ cs, d :: rest) := by
  have hthree := closesWithThree_readLongLiteral
  induction cs generalizing run longest with
  | nil =>
    have hlimit := (le_longestRunFrom '\'' [] run longest).1
    rw [List.nil_append, List.append_nil]
    exact hthree.close_run (by omega) hd rest
  | cons c cs ih =>
    have hplain' : ∀ c ∈ cs, isPrintable c = true ∨ c = '\n' := fun e he =>
      hplain e (List.mem_cons_of_mem c he)
    have hlimit := (le_longestRunFrom '\'' (c :: cs) run longest).1
    have hstep := hrun
    rw [longestRunFrom] at hstep
    by_cases hq : c = '\''
    · subst hq
      rw [if_pos rfl] at hstep
      have hlonger := ih hplain' hstep
      rw [List.replicate_succ', List.append_assoc, List.append_assoc] at hlonger
      exact hlonger
    · rw [if_neg hq] at hstep
      have hnext := ih hplain' hstep
      refine hthree.read_run (by omega) hq ?_
      rw [readLongLiteral_cons (hplain c List.mem_cons_self) (fun h => absurd h hq)]
      exact congrArg (cons c) hnext

/-! ## Whichever quotes are chosen -/

theorem not_mem_of_longestRun {q : Char} {cs : List Char} (h : longestRun q cs = 0) : q ∉ cs := by
  suffices ∀ longest, longestRunFrom q 0 longest cs = 0 → q ∉ cs from this 0 h
  clear h
  intro longest hrun
  induction cs generalizing longest with
  | nil => exact List.not_mem_nil
  | cons c cs ih =>
    rw [longestRunFrom] at hrun
    split at hrun
    · have hone := (le_longestRunFrom q cs (0 + 1) longest).1
      omega
    next hc => exact List.not_mem_cons_of_ne_of_not_mem (Ne.symm hc) (ih _ hrun)

/-- A text in literal quotes on one line needs no escapes and holds no such quote. -/
theorem quotingFor_literal {cs : List Char} (h : quotingFor cs = .literal) :
    (∀ c ∈ cs, isPrintable c = true) ∧ '\'' ∉ cs := by
  have hcondition :
      (!cs.any isUnwritable && !cs.contains '\n' && longestRun '\'' cs = 0) = true := by
    unfold quotingFor at h
    grind
  simp only [Bool.and_eq_true, Bool.not_eq_true', List.any_eq_false, List.contains_eq_mem,
    decide_eq_true_eq, decide_eq_false_iff_not] at hcondition
  obtain ⟨⟨hwritable, hline⟩, hrun⟩ := hcondition
  exact ⟨fun c hc => isPrintable_of_writable (Bool.eq_false_iff.mpr (hwritable c hc))
    fun h => hline (h ▸ hc), not_mem_of_longestRun hrun⟩

/-- A text in three literal quotes needs no escapes, and its quotes cannot close it. -/
theorem quotingFor_longLiteral {cs : List Char} (h : quotingFor cs = .longLiteral) :
    (∀ c ∈ cs, isPrintable c = true ∨ c = '\n') ∧ longestRun '\'' cs ≤ 2 := by
  have hcondition : (!cs.any isUnwritable && longestRun '\'' cs ≤ 2) = true := by
    unfold quotingFor at h
    grind
  simp only [Bool.and_eq_true, Bool.not_eq_true', List.any_eq_false,
    decide_eq_true_eq] at hcondition
  obtain ⟨hwritable, hrun⟩ := hcondition
  refine ⟨fun c hc => ?_, hrun⟩
  by_cases hn : c = '\n'
  · exact .inr hn
  · exact .inl (isPrintable_of_writable (Bool.eq_false_iff.mpr (hwritable c hc)) hn)

/-- The first character behind the opening quotes of a basic string. -/
theorem head_escapeFrom (quotes : Nat) (long : Bool) (free : Nat) (cs rest : List Char) :
    ∃ c left, escapeFrom quotes long free cs ++ '"' :: rest = c :: left ∧
      (c = '"' → free = 0 → left = rest ∧ cs = []) ∧ (c = '\n' → c ∈ cs) ∧ c ≠ '\r' := by
  cases cs with
  | nil => exact ⟨'"', rest, rfl, fun _ _ => ⟨rfl, rfl⟩, by decide, by decide⟩
  | cons c cs =>
    rcases escapeFrom_cons quotes long free c cs with
      ⟨left, rfl, rfl, h⟩ | ⟨p, hp, h⟩ | ⟨hq, -, hc, h⟩
    · exact ⟨'"', _, by rw [h]; rfl, fun _ h => by omega, fun h => absurd h (by decide), by decide⟩
    · obtain ⟨d, code, rfl, -⟩ := hp
      exact ⟨'\\', _, by rw [h]; rfl, fun h => absurd h (by decide), fun h => absurd h (by decide),
        by decide⟩
    · refine ⟨c, _, by rw [h]; rfl, fun h => absurd h hq, fun _ => List.mem_cons_self, ?_⟩
      rintro rfl
      revert hc
      simp [isPrintable]

/-- Behind opening quotes the first line end counts for nothing, and there is one only if the text
has one of its own. -/
theorem skipFirstNewline_opening {cs x : List Char}
    (hx : ∃ c left, x = c :: left ∧ (c = '\n' → c ∈ cs) ∧ c ≠ '\r') :
    skipFirstNewline ((if cs.contains '\n' then ['\n'] else []) ++ x) = x := by
  obtain ⟨c, left, rfl, hn, hr⟩ := hx
  by_cases hline : '\n' ∈ cs
  · rw [if_pos (List.contains_iff_mem.mpr hline)]
    rfl
  · rw [if_neg (mt List.contains_iff_mem.mp hline), List.nil_append, skipFirstNewline,
      newline?_eq_none (fun h => hline (h ▸ hn h)) hr]
    rfl

theorem readString_basic {x : List Char} (hx : ∀ left, x ≠ '"' :: '"' :: left) :
    readString ('"' :: x) = readBasic x := by
  rw [readString]
  exact hx

theorem readString_literal {x : List Char} (hx : ∀ left, x ≠ '\'' :: '\'' :: left) :
    readString ('\'' :: x) = readLiteral x := by
  rw [readString]
  exact hx

theorem readString_renderAs_basic (cs rest : List Char) :
    readString (renderAs .basic cs ++ '\n' :: rest) = some (cs, '\n' :: rest) := by
  show readString ('"' :: (escapeFrom 0 false 0 cs ++ ['"'] ++ '\n' :: rest)) = _
  rw [List.append_assoc, List.singleton_append, readString_basic, readBasic_escapeFrom]
  -- the first quote behind the opening one closes the literal, and the line ends behind it
  intro left h
  obtain ⟨c, tail, hhead, hfree, -⟩ := head_escapeFrom 0 false 0 cs ('\n' :: rest)
  rw [h] at hhead
  obtain ⟨rfl, rfl⟩ := List.cons.inj hhead
  exact absurd (List.cons.inj (hfree rfl rfl).1).1 (by decide)

theorem readString_renderAs_literal {cs : List Char} (hprintable : ∀ c ∈ cs, isPrintable c = true)
    (hquote : '\'' ∉ cs) (rest : List Char) :
    readString (renderAs .literal cs ++ '\n' :: rest) = some (cs, '\n' :: rest) := by
  show readString ('\'' :: (cs ++ ['\''] ++ '\n' :: rest)) = _
  rw [List.append_assoc, List.singleton_append, readString_literal,
    readLiteral_append hprintable hquote]
  intro left h
  cases cs with
  | nil => exact absurd (List.cons.inj (List.cons.inj h).2).1 (by decide)
  | cons c cs => exact hquote ((List.cons.inj h).1 ▸ List.mem_cons_self)

theorem readString_renderAs_longBasic (cs rest : List Char) :
    readString (renderAs .longBasic cs ++ '\n' :: rest) = some (cs, '\n' :: rest) := by
  obtain ⟨c, left, hhead, -, hline⟩ := head_escapeFrom 2 true 2 cs ('"' :: '"' :: '\n' :: rest)
  have hskip := skipFirstNewline_opening ⟨c, left, hhead, hline⟩
  have hread : readLongBasic (escapeFrom 2 true 2 cs ++ '"' :: '"' :: '"' :: '\n' :: rest) =
      some (cs, '\n' :: rest) := readLongBasic_escapeFrom cs (by decide) rest 0 2 rfl
  have htext : renderAs .longBasic cs ++ '\n' :: rest =
      '"' :: '"' :: '"' :: ((if cs.contains '\n' then ['\n'] else []) ++
        (escapeFrom 2 true 2 cs ++ '"' :: '"' :: '"' :: '\n' :: rest)) := by
    simp [renderAs, opening]
  rw [htext, readString, hskip, hread]

theorem readString_renderAs_longLiteral {cs : List Char}
    (hplain : ∀ c ∈ cs, isPrintable c = true ∨ c = '\n') (hrun : longestRun '\'' cs ≤ 2)
    (rest : List Char) :
    readString (renderAs .longLiteral cs ++ '\n' :: rest) = some (cs, '\n' :: rest) := by
  have hhead : ∃ c left, cs ++ '\'' :: '\'' :: '\'' :: '\n' :: rest = c :: left ∧
      (c = '\n' → c ∈ cs) ∧ c ≠ '\r' := by
    cases cs with
    | nil => exact ⟨_, _, rfl, by decide, by decide⟩
    | cons c cs =>
      refine ⟨c, _, rfl, fun _ => List.mem_cons_self, ?_⟩
      rintro rfl
      exact absurd (hplain _ List.mem_cons_self) (by decide)
  have hskip := skipFirstNewline_opening hhead
  have hread : readLongLiteral (cs ++ '\'' :: '\'' :: '\'' :: '\n' :: rest) =
      some (cs, '\n' :: rest) :=
    readLongLiteral_append hplain (by decide) rest (show longestRunFrom '\'' 0 0 cs ≤ 2 from hrun)
  have htext : renderAs .longLiteral cs ++ '\n' :: rest =
      '\'' :: '\'' :: '\'' :: ((if cs.contains '\n' then ['\n'] else []) ++
        (cs ++ '\'' :: '\'' :: '\'' :: '\n' :: rest)) := by
    simp [renderAs, opening]
  rw [htext, readString, hskip, hread]

/-- **A text is read back from the literal that is written for it**, at the end of a line. -/
theorem readString_renderText (s : String) (rest : List Char) :
    readString (renderText s ++ '\n' :: rest) = some (s.toList, '\n' :: rest) := by
  rw [renderText]
  generalize s.toList = cs
  cases hquoting : quotingFor cs with
  | basic => exact readString_renderAs_basic cs rest
  | literal =>
    obtain ⟨hprintable, hquote⟩ := quotingFor_literal hquoting
    exact readString_renderAs_literal hprintable hquote rest
  | longBasic => exact readString_renderAs_longBasic cs rest
  | longLiteral =>
    obtain ⟨hplain, hrun⟩ := quotingFor_longLiteral hquoting
    exact readString_renderAs_longLiteral hplain hrun rest

end Switchboard.Toml
