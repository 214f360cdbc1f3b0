import Switchboard.Proofs.Toml.Numbers
import Switchboard.Proofs.Toml.Strings
import Switchboard.Toml.Reader
import Switchboard.Toml.Writer

/-!
# Documents there and back

A document that is written section by section is read as those sections. Line by line it gives
one statement for each header and each assignment, and none for the blank lines between sections;
the statements of a section open one table and fill it, in order: `parse_renderSections`.
-/

namespace Switchboard.Toml

/-! ## Values -/

/-- The text of a value that an assignment can end with. -/
structure Written (text : List Char) (v : Value) : Prop where
  start : ∃ c rest, text = c :: rest ∧ isSpace c = false
  read : ∀ rest, readValue (depthLimit - 1) (text ++ '\n' :: rest) = some (v, '\n' :: rest)

/-- A literal begins with its quotes. -/
theorem exists_renderText_eq (s : String) :
    (∃ rest, renderText s = '"' :: rest) ∨ ∃ rest, renderText s = '\'' :: rest := by
  unfold renderText
  cases quotingFor s.toList with
  | basic => exact .inl ⟨_, rfl⟩
  | literal => exact .inr ⟨_, rfl⟩
  | longBasic => exact .inl ⟨_, rfl⟩
  | longLiteral => exact .inr ⟨_, rfl⟩

theorem written_text (s : String) : Written (renderText s) (.text s) := by
  have hread : ∀ rest, readString (renderText s ++ '\n' :: rest) = some (s.toList, '\n' :: rest) :=
    readString_renderText s
  rcases exists_renderText_eq s with ⟨text, h⟩ | ⟨text, h⟩
  all_goals
    rw [h] at hread ⊢
    refine ⟨⟨_, text, rfl, rfl⟩, fun rest => ?_⟩
    rw [List.cons_append, readValue, ← List.cons_append, hread, Option.map_some]
    dsimp only
    rw [String.ofList_toList]

theorem written_boolean (b : Bool) : Written (toString b).toList (.boolean b) := by
  cases b with
  | true => exact ⟨⟨_, _, rfl, rfl⟩, fun _ => rfl⟩
  | false => exact ⟨⟨_, _, rfl, rfl⟩, fun _ => rfl⟩

/-- What begins with a digit is read as a number or a moment. -/
theorem readValue_digit (depth : Nat) {c : Char} (hc : c.isDigit = true) (cs : List Char) :
    readValue depth (c :: cs) = readNumeric (c :: cs) := by
  rw [readValue.eq_def]
  split
  all_goals first
    | rfl
    | next h => exact absurd ((List.cons.inj h).1 ▸ hc) (by decide)

theorem written_integer {n : Nat} (hn : n < 0x8000000000000000) :
    Written (toString n).toList (.integer n) := by
  have htext : (toString n).toList = Nat.toDigits 10 n := Nat.toList_repr
  have hread := readNumeric_toDigits hn
  have hdigits : ∀ c ∈ Nat.toDigits 10 n, c.isDigit = true := fun c hc =>
    Nat.isDigit_of_mem_toDigits (by decide) (by decide) hc
  rw [htext]
  cases h : Nat.toDigits 10 n with
  | nil => exact absurd h Nat.toDigits_ne_nil
  | cons c cs =>
    rw [h] at hread hdigits
    have hc := hdigits c List.mem_cons_self
    have hspace : isSpace c = false := by
      rw [isSpace, Bool.or_eq_false_iff, beq_eq_false_iff_ne, beq_eq_false_iff_ne]
      constructor <;> rintro rfl <;> exact absurd hc (by decide)
    refine ⟨⟨c, cs, rfl, hspace⟩, fun rest => ?_⟩
    rw [List.cons_append, readValue_digit _ hc]
    exact hread rest

/-! ## Keys -/

/-- A name that is a key without quotes. -/
def IsBareName (name : String) : Prop := name.toList ≠ [] ∧ ∀ c ∈ name.toList, isBare c = true

instance (name : String) : Decidable (IsBareName name) :=
  @instDecidableAnd _ _ inferInstance (List.decidableBAll (isBare · = true) name.toList)

/-- None of the marks that a line is told by is part of a bare name. -/
theorem isBare_ne {c : Char} (h : isBare c = true) :
    c ≠ '"' ∧ c ≠ '\'' ∧ c ≠ '[' ∧ c ≠ '#' ∧ c ≠ '\n' ∧ c ≠ '\r' ∧ isSpace c = false := by
  have hspace : isSpace c = false := by
    rw [isSpace, Bool.or_eq_false_iff, beq_eq_false_iff_ne, beq_eq_false_iff_ne]
    constructor <;> rintro rfl <;> exact absurd h (by decide)
  refine ⟨?_, ?_, ?_, ?_, ?_, ?_, hspace⟩ <;> rintro rfl <;> exact absurd h (by decide)

theorem IsBareName.exists_cons {name : String} (h : IsBareName name) :
    ∃ c cs, name.toList = c :: cs ∧ isBare c = true := by
  obtain ⟨c, cs, hcs⟩ := List.exists_cons_of_ne_nil h.1
  exact ⟨c, cs, hcs, h.2 c (hcs ▸ List.mem_cons_self)⟩

theorem readPart_bare {name : String} (hname : IsBareName name) {d : Char}
    (hd : isBare d = false) (rest : List Char) :
    readPart (name.toList ++ d :: rest) = some (name, d :: rest) := by
  obtain ⟨c, cs, hcs, hc⟩ := hname.exists_cons
  obtain ⟨hquote, hquote', -⟩ := isBare_ne hc
  have htake : (name.toList ++ d :: rest).takeWhile isBare = name.toList := by
    simp [List.takeWhile_append_of_pos hname.2, hd]
  have hdrop : (name.toList ++ d :: rest).dropWhile isBare = d :: rest := by
    simp [List.dropWhile_append_of_pos hname.2, hd]
  unfold readPart
  split
  next h => rw [hcs] at h; exact absurd (List.cons.inj h).1 hquote
  next h => rw [hcs] at h; exact absurd (List.cons.inj h).1 hquote'
  next =>
    simp only [htake, hdrop, String.ofList_toList]
    rw [if_neg (by simp [hname.1])]

/-- A bare name is read up to the first character that is no part of one. -/
theorem readKey_bare {name : String} (hname : IsBareName name) {d : Char} (hd : isBare d = false)
    {rest : List Char} (hpoint : ∀ left, skipSpace (d :: rest) ≠ '.' :: left) :
    readKey (name.toList ++ d :: rest) = some (⟨[], name⟩, skipSpace (d :: rest)) := by
  obtain ⟨c, cs, hcs, hc⟩ := hname.exists_cons
  have hskip : skipSpace (name.toList ++ d :: rest) = name.toList ++ d :: rest := by
    rw [hcs]
    exact skipSpace_cons (isBare_ne hc).2.2.2.2.2.2 _
  have hparts : readParts (name.toList ++ d :: rest) = some ([name], skipSpace (d :: rest)) := by
    rw [readParts, hskip, readPart_bare hname hd]
    dsimp only [Option.bind_eq_bind, Option.bind_some]
    split
    next h => exact absurd h (hpoint _)
    next => rfl
  rw [readKey, hparts]
  rfl

/-! ## Lines -/

theorem readStatement_assignment {name : String} (hname : IsBareName name) {text : List Char}
    {v : Value} (hwritten : Written text v) (rest : List Char) :
    readStatement (renderAssignment name text ++ rest) = some (.assign ⟨[], name⟩ v, rest) := by
  obtain ⟨c, cs, hcs, hc⟩ := hname.exists_cons
  have htext : renderAssignment name text ++ rest =
      name.toList ++ ' ' :: '=' :: ' ' :: (text ++ '\n' :: rest) := by
    simp [renderAssignment]
  have hkey : readKey (name.toList ++ ' ' :: '=' :: ' ' :: (text ++ '\n' :: rest)) =
      some (⟨[], name⟩, '=' :: ' ' :: (text ++ '\n' :: rest)) :=
    readKey_bare hname (by decide) (fun _ h => absurd (List.cons.inj h).1 (by decide))
  have hvalue : skipSpace (' ' :: (text ++ '\n' :: rest)) = text ++ '\n' :: rest := by
    obtain ⟨d, ds, rfl, hd⟩ := hwritten.start
    exact skipSpace_cons hd _
  have hassignment : readAssignment (readValue (depthLimit - 1))
      (name.toList ++ ' ' :: '=' :: ' ' :: (text ++ '\n' :: rest)) =
      some ((⟨[], name⟩, v), '\n' :: rest) := by
    rw [readAssignment, hkey]
    dsimp only [Option.bind_eq_bind, Option.bind_some]
    rw [expect, if_pos rfl, Option.bind_some, hvalue, hwritten.read]
    rfl
  rw [htext]
  unfold readStatement
  split
  next h => rw [hcs] at h; exact absurd (List.cons.inj h).1 (isBare_ne hc).2.2.1
  next h => rw [hcs] at h; exact absurd (List.cons.inj h).1 (isBare_ne hc).2.2.1
  next =>
    rw [hassignment]
    rfl

theorem readStatement_header {name : String} (hname : IsBareName name) (rest : List Char) :
    readStatement ('[' :: (name.toList ++ ']' :: '\n' :: rest)) =
      some (.header ⟨[], name⟩, rest) := by
  obtain ⟨c, cs, hcs, hc⟩ := hname.exists_cons
  have hkey : readKey (name.toList ++ ']' :: '\n' :: rest) =
      some (⟨[], name⟩, ']' :: '\n' :: rest) :=
    readKey_bare hname (by decide) (fun _ h => absurd (List.cons.inj h).1 (by decide))
  unfold readStatement
  split
  next h =>
    rw [hcs] at h
    exact absurd (List.cons.inj (List.cons.inj h).2).1 (isBare_ne hc).2.2.1
  next h =>
    rw [← (List.cons.inj h).2, hkey]
    rfl
  next h => exact absurd rfl (h _)

/-- A statement is a line of its own where no mark of another line stands in front of it. -/
theorem readLines_statement {line : List Char} {s : Statement} {rest : List Char} {c : Char}
    {cs : List Char} (hline : line = c :: cs) (hspace : isSpace c = false) (hcomment : c ≠ '#')
    (hn : c ≠ '\n') (hr : c ≠ '\r') (hread : readStatement (line ++ rest) = some (s, rest)) :
    readLines (line ++ rest) = (readLines rest).map (s :: ·) := by
  subst hline
  have hskip : skipComment (c :: (cs ++ rest)) = c :: (cs ++ rest) := by
    unfold skipComment
    split
    next h => exact absurd (List.cons.inj h).1 hcomment
    next => rfl
  have hone : readLine (c :: (cs ++ rest)) = some (some s, rest) := by
    unfold readLine
    rw [hskip, newline?_eq_none hn hr]
    dsimp only
    split
    next h => cases h
    next h => exact absurd (List.cons.inj h).1 hcomment
    next => rw [← List.cons_append, hread]; rfl
  have hlength : rest.length < (c :: (cs ++ rest)).length := by
    simp only [List.length_cons, List.length_append]
    omega
  rw [List.cons_append, readLines, skipSpace_cons hspace]
  dsimp only
  rw [hone]
  dsimp only [Option.bind_eq_bind, Option.bind_some]
  rw [if_pos hlength]
  cases readLines rest <;> rfl

/-- A blank line says nothing. -/
theorem readLines_newline (rest : List Char) : readLines ('\n' :: rest) = readLines rest := by
  have hone : readLine ('\n' :: rest) = some (none, rest) := rfl
  rw [readLines, skipSpace_cons rfl]
  dsimp only
  rw [hone]
  dsimp only [Option.bind_eq_bind, Option.bind_some]
  rw [if_pos (by simp)]
  cases readLines rest <;> rfl

/-! ## Sections -/

/-- An assignment with the text of its value. -/
structure Assignment where
  name : String
  text : List Char
  value : Value
  bare : IsBareName name
  written : Written text value

/-- A table that is written under a header of its own. -/
structure Section where
  name : String
  assignments : List Assignment
  bare : IsBareName name
  distinct : (assignments.map (·.name)).Nodup

theorem readLines_assignment (a : Assignment) (rest : List Char) :
    readLines (renderAssignment a.name a.text ++ rest) =
      (readLines rest).map (.assign ⟨[], a.name⟩ a.value :: ·) := by
  obtain ⟨c, cs, hcs, hc⟩ := a.bare.exists_cons
  obtain ⟨-, -, -, hcomment, hn, hr, hspace⟩ := isBare_ne hc
  have hline : renderAssignment a.name a.text =
      c :: (cs ++ [' ', '=', ' '] ++ a.text ++ ['\n']) := by
    rw [renderAssignment, hcs]
    rfl
  exact readLines_statement hline hspace hcomment hn hr
    (readStatement_assignment a.bare a.written rest)

namespace Section

/-- The text of a section. -/
def text (s : Section) : List Char :=
  renderSection s.name (s.assignments.map fun a => (a.name, a.text))

/-- The entries of the table. -/
def entries (s : Section) : Entries := s.assignments.map fun a => (a.name, a.value)

/-- The table as an entry of the document. -/
def entry (s : Section) : String × Value := (s.name, .table .header s.entries)

/-- What the lines of a section say. -/
def statements (s : Section) : List Statement :=
  .header ⟨[], s.name⟩ :: s.assignments.map fun a => .assign ⟨[], a.name⟩ a.value

theorem readLines_text (s : Section) (rest : List Char) :
    readLines (s.text ++ rest) = (readLines rest).map (s.statements ++ ·) := by
  have hassignments (as : List Assignment) :
      readLines (as.flatMap (fun a => renderAssignment a.name a.text) ++ rest) =
        (readLines rest).map ((as.map fun a => .assign ⟨[], a.name⟩ a.value) ++ ·) := by
    induction as with
    | nil => simp
    | cons a as ih =>
      rw [List.flatMap_cons, List.append_assoc, readLines_assignment, ih, Option.map_map]
      rfl
  have hheader (after : List Char) : readLines ('[' :: (s.name.toList ++ [']', '\n']) ++ after) =
      (readLines after).map (.header ⟨[], s.name⟩ :: ·) := by
    refine readLines_statement rfl rfl (by decide) (by decide) (by decide) ?_
    rw [List.cons_append, List.append_assoc]
    exact readStatement_header s.bare _
  have htext : s.text ++ rest = '[' :: (s.name.toList ++ [']', '\n']) ++
      (s.assignments.flatMap (fun a => renderAssignment a.name a.text) ++ rest) := by
    simp [text, renderSection, List.flatMap_map]
  rw [htext, hheader, hassignments, Option.map_map]
  rfl

/-- Blank lines part sections and say nothing. -/
theorem readLines_sections (sections : List Section) :
    readLines (['\n'].intercalate (sections.map text)) = some (sections.flatMap statements) := by
  have hnil : readLines [] = some [] := by rw [readLines]; rfl
  induction sections with
  | nil => exact hnil
  | cons s sections ih =>
    cases sections with
    | nil =>
      have h := s.readLines_text []
      rw [hnil, List.append_nil] at h
      simpa [List.intercalate] using h
    | cons t sections =>
      rw [List.map_cons, List.map_cons, List.intercalate_cons_cons, List.append_assoc,
        readLines_text, List.singleton_append, readLines_newline, ← List.map_cons, ih]
      rfl

end Section

/-! ## Tables -/

theorem get?_eq_none_iff {key : String} {entries : Entries} :
    get? key entries = none ↔ key ∉ entries.map Prod.fst := by
  rw [get?, Option.map_eq_none_iff, List.find?_eq_none]
  constructor
  · intro h hmem
    obtain ⟨e, he, rfl⟩ := List.mem_map.mp hmem
    exact h e he (beq_self_eq_true _)
  · intro h e he heq
    exact h (List.mem_map.mpr ⟨e, he, eq_of_beq heq⟩)

theorem get?_concat {key : String} {entries : Entries} (h : key ∉ entries.map Prod.fst)
    (v : Value) : get? key (entries ++ [(key, v)]) = some v := by
  have hnone := Option.map_eq_none_iff.mp (get?_eq_none_iff.mpr h)
  rw [get?, List.find?_append, hnone]
  simp

theorem put_concat {key : String} {entries : Entries} (h : key ∉ entries.map Prod.fst)
    (v w : Value) : put key w (entries ++ [(key, v)]) = entries ++ [(key, w)] := by
  have hothers : entries.map (fun e => if e.1 == key then (key, w) else e) = entries := by
    refine (List.map_congr_left fun e he => if_neg fun heq => h ?_).trans (List.map_id' entries)
    exact List.mem_map.mpr ⟨e, he, eq_of_beq heq⟩
  rw [put, if_pos (by simp), List.map_append, hothers]
  simp

/-- A header opens a table at the end of the document. -/
theorem step_header {root : Entries} {name : String} (h : name ∉ root.map Prod.fst)
    (current : List String) :
    Progress.step ⟨⟨.header, root⟩, current⟩ (.header ⟨[], name⟩) =
      some ⟨⟨.header, root ++ [(name, .table .header [])]⟩, [name]⟩ := by
  have hnone := get?_eq_none_iff.mpr h
  simp [Progress.step, Table.openAt, Table.change, Table.add, hnone]

/-- An assignment adds to the table that was opened last. -/
theorem step_assign {root entries : Entries} {name key : String} (h : name ∉ root.map Prod.fst)
    (hkey : key ∉ entries.map Prod.fst) (v : Value) :
    Progress.step ⟨⟨.header, root ++ [(name, .table .header entries)]⟩, [name]⟩
        (.assign ⟨[], key⟩ v) =
      some ⟨⟨.header, root ++ [(name, .table .header (entries ++ [(key, v)]))]⟩, [name]⟩ := by
  have hnone := get?_eq_none_iff.mpr hkey
  simp [Progress.step, Table.assign, Table.change, Table.add, hnone, get?_concat h, put_concat h,
    Walk.enters]

/-- The assignments of a section fill the table that was opened last, in order. -/
theorem foldlM_assignments {root : Entries} {name : String} (h : name ∉ root.map Prod.fst)
    (as : List Assignment) (before : Entries)
    (hnames : (before.map Prod.fst ++ as.map (·.name)).Nodup) :
    (as.map fun a => Statement.assign ⟨[], a.name⟩ a.value).foldlM Progress.step
        ⟨⟨.header, root ++ [(name, .table .header before)]⟩, [name]⟩ =
      some ⟨⟨.header, root ++ [(name, .table .header
        (before ++ as.map fun a => (a.name, a.value)))]⟩, [name]⟩ := by
  induction as generalizing before with
  | nil => simp
  | cons a as ih =>
    have hkey : a.name ∉ before.map Prod.fst := fun hmem =>
      (List.nodup_append.mp hnames).2.2 _ hmem _ List.mem_cons_self rfl
    rw [List.map_cons, List.foldlM_cons, step_assign h hkey, Option.bind_eq_bind, Option.bind_some,
      ih _ (by simpa using hnames)]
    simp

/-- The statements of a section put its table at the end of the document. -/
theorem foldlM_statements (s : Section) {root : Entries} (h : s.name ∉ root.map Prod.fst)
    (current : List String) :
    s.statements.foldlM Progress.step ⟨⟨.header, root⟩, current⟩ =
      some ⟨⟨.header, root ++ [s.entry]⟩, [s.name]⟩ := by
  rw [Section.statements, List.foldlM_cons, step_header h]
  exact foldlM_assignments h s.assignments [] s.distinct

/-- Sections follow each other, whatever was read before. -/
theorem foldlM_sections (sections : List Section) (root : Entries) (current : List String)
    (hnames : (root.map Prod.fst ++ sections.map (·.name)).Nodup) :
    ∃ last, (sections.flatMap Section.statements).foldlM Progress.step
        ⟨⟨.header, root⟩, current⟩ =
      some ⟨⟨.header, root ++ sections.map Section.entry⟩, last⟩ := by
  induction sections generalizing root current with
  | nil => exact ⟨current, by simp⟩
  | cons s sections ih =>
    have hname : s.name ∉ root.map Prod.fst := fun hmem =>
      (List.nodup_append.mp hnames).2.2 _ hmem _ List.mem_cons_self rfl
    obtain ⟨last, hlast⟩ := ih (root ++ [s.entry]) [s.name] (by simpa [Section.entry] using hnames)
    refine ⟨last, ?_⟩
    rw [List.flatMap_cons, List.foldlM_append, foldlM_statements s hname, Option.bind_eq_bind,
      Option.bind_some, hlast]
    simp

/-- **A document is read back as the sections it was written from**, in their order and with
their entries in order, where no name is given twice. -/
theorem parse_renderSections (sections : List Section)
    (hnames : (sections.map (·.name)).Nodup) :
    parse (renderSections (sections.map Section.text)) = some (sections.map Section.entry) := by
  obtain ⟨last, hlast⟩ := foldlM_sections sections [] [] hnames
  have hmark : ∀ rest, ['\n'].intercalate (sections.map Section.text) ≠ '\uFEFF' :: rest := by
    intro rest
    cases sections with
    | nil => simp
    | cons s sections => cases sections <;> simp [List.intercalate, Section.text, renderSection]
  rw [parse, renderSections, String.toList_ofList]
  split
  next h => exact absurd h (hmark _)
  next =>
    rw [Section.readLines_sections, Option.bind_eq_bind, Option.bind_some, ofStatements?,
      Progress.start, hlast]
    rfl

end Switchboard.Toml
