import Mathlib.Data.List.Forall2
import Switchboard.Json.Tree
import Switchboard.Proofs.Json.Strings

/-!
# Texts and the trees they spell

A piece of text takes the reader from one place in a document to another (`Reads`), and pieces that
fit together do so as a whole (`Reads.append`). A text spells a value if it takes the reader from
any place where a value is due to the place behind that value (`Spells`). Words, quoted texts,
arrays and objects without blanks spell what they say, and a whole document that spells a value is
parsed to it, with nothing behind it (`Spells.parse_eq`).
-/

namespace Switchboard.Json

open Progress

/-! ## Tokens -/

/-- A text consists of these tokens, whatever follows it. There are no blanks in it, so each token
takes one unit of fuel. -/
def Lexes (cs : List Char) (toks : List Token) : Prop :=
  toks.length ≤ cs.length ∧
    ∀ fuel rest, tokensWithin (toks.length + fuel) (cs ++ rest) = toks ++ tokensWithin fuel rest

theorem lexes_nil : Lexes [] [] :=
  ⟨Nat.le_refl 0, fun fuel rest => by rw [List.length_nil, Nat.zero_add]; rfl⟩

theorem Lexes.append {cs ds : List Char} {toks more : List Token} (h : Lexes cs toks)
    (h' : Lexes ds more) : Lexes (cs ++ ds) (toks ++ more) := by
  constructor
  · rw [List.length_append, List.length_append]
    exact Nat.add_le_add h.1 h'.1
  · intro fuel rest
    rw [List.length_append, Nat.add_assoc, List.append_assoc, h.2, h'.2, List.append_assoc]

theorem lexes_token {c : Char} {cs : List Char} {t : Token} (hc : isSpace c = false)
    (h : ∀ rest, cutToken c (cs ++ rest) = (t, some rest)) : Lexes (c :: cs) [t] := by
  constructor
  · exact Nat.succ_le_succ (Nat.zero_le _)
  · intro fuel rest
    rw [List.length_singleton, Nat.add_comm, List.cons_append, tokensWithin, if_neg (by simp [hc]),
      h rest]
    rfl

theorem Lexes.tokens_eq {cs : List Char} {toks : List Token} (h : Lexes cs toks) :
    tokens cs = toks := by
  have hnone : ∀ fuel, tokensWithin fuel [] = [] := fun fuel => by cases fuel <;> rfl
  have hall := h.2 (cs.length - toks.length) []
  rwa [Nat.add_sub_cancel' h.1, List.append_nil, hnone, List.append_nil] at hall

/-! ## Places in a document -/

/-- A text takes the reader from one place to another. -/
def Reads (cs : List Char) (before after : Progress) : Prop :=
  ∃ toks, Lexes cs toks ∧ toks.foldl next before = after

theorem reads_nil (p : Progress) : Reads [] p p := ⟨[], lexes_nil, rfl⟩

theorem Reads.append {cs ds : List Char} {p q r : Progress} (h : Reads cs p q)
    (h' : Reads ds q r) : Reads (cs ++ ds) p r := by
  obtain ⟨toks, htoks, rfl⟩ := h
  obtain ⟨more, hmore, rfl⟩ := h'
  exact ⟨toks ++ more, htoks.append hmore, List.foldl_append⟩

theorem reads_token {c : Char} {cs : List Char} {t : Token} (hc : isSpace c = false)
    (h : ∀ rest, cutToken c (cs ++ rest) = (t, some rest)) (p : Progress) :
    Reads (c :: cs) p (p.next t) := ⟨[t], lexes_token hc h, rfl⟩

/-- A mark is a token by itself. -/
theorem reads_mark {c : Char} {t : Token} (hc : isSpace c = false)
    (h : ∀ rest, cutToken c ([] ++ rest) = (t, some rest)) (p : Progress) :
    Reads [c] p (p.next t) := reads_token hc h p

theorem reads_quote (s : String) (p : Progress) :
    Reads (quote s) p (p.next (.text (some s.toList))) := by
  show Reads ('"' :: (s.toList.flatMap escape ++ ['"'])) p _
  exact reads_token (by decide) (cutToken_quote s) p

/-! ## Values -/

/-- A text spells a value wherever one is due. -/
def Spells (v : Json) (cs : List Char) : Prop :=
  ∀ frames expected, expected = .value ∨ expected = .itemOrEnd →
    Reads cs (.inside frames expected) (afterValue v frames)

/-- A token that is a value by itself. -/
theorem spells_token {c : Char} {cs : List Char} {t : Token} {v : Json}
    (hc : isSpace c = false) (h : ∀ rest, cutToken c (cs ++ rest) = (t, some rest))
    (hv : ∀ frames, beginValue frames t = afterValue v frames) (hend : t ≠ .closeBracket) :
    Spells v (c :: cs) := by
  intro frames expected hexpected
  have hnext : next (.inside frames expected) t = afterValue v frames := by
    rcases hexpected with rfl | rfl
    · exact hv frames
    · exact (if_neg hend).trans (hv frames)
  rw [← hnext]
  exact reads_token hc h (.inside frames expected)

theorem spells_null : Spells .null "null".toList :=
  spells_token (t := .null) (by decide) (fun _ => rfl) (fun _ => rfl) (by simp)

theorem spells_bool (b : Bool) : Spells (.bool b) (toString b).toList := by
  cases b with
  | false =>
      exact spells_token (t := .bool false) (by decide) (fun _ => rfl) (fun _ => rfl) (by simp)
  | true =>
      exact spells_token (t := .bool true) (by decide) (fun _ => rfl) (fun _ => rfl) (by simp)

theorem spells_quote (s : String) : Spells (.text (some s.toList)) (quote s) := by
  show Spells _ ('"' :: (s.toList.flatMap escape ++ ['"']))
  exact spells_token (by decide) (cutToken_quote s) (fun _ => rfl) (by simp)

/-! ## Arrays and objects -/

/-- Pieces with commas between them are the first piece, and the others with a comma in front of
each. -/
theorem intercalate_cons (cs : List Char) (more : List (List Char)) :
    [','].intercalate (cs :: more) = cs ++ more.flatMap (',' :: ·) := by
  induction more generalizing cs with
  | nil => simp
  | cons ds more ih =>
      rw [List.intercalate_cons_cons, ih, List.flatMap_cons]
      simp

theorem reads_comma_item {v : Json} {cs : List Char} (h : Spells v cs) (read : List Json)
    (outer : List Frame) :
    Reads (',' :: cs) (.inside (.array read :: outer) .separator)
      (.inside (.array (v :: read) :: outer) .separator) := by
  have hcomma := reads_mark (c := ',') (t := .comma) (by decide) (fun _ => rfl)
    (.inside (.array read :: outer) .separator)
  exact hcomma.append (h (.array read :: outer) .value (.inl rfl))

/-- The items behind the first one. -/
theorem reads_items {vs : List Json} {texts : List (List Char)} (h : List.Forall₂ Spells vs texts)
    (read : List Json) (outer : List Frame) :
    Reads (texts.flatMap (',' :: ·)) (.inside (.array read :: outer) .separator)
      (.inside (.array (vs.reverse ++ read) :: outer) .separator) := by
  induction h generalizing read with
  | nil => exact reads_nil _
  | cons hfirst hrest ih =>
      rw [List.flatMap_cons, List.reverse_cons, List.append_assoc]
      exact (reads_comma_item hfirst read outer).append (ih (_ :: read))

/-- **Values in brackets spell an array.** -/
theorem spells_array {vs : List Json} {texts : List (List Char)}
    (h : List.Forall₂ Spells vs texts) :
    Spells (.array vs none) ('[' :: [','].intercalate texts ++ [']']) := by
  intro frames expected hexpected
  have hopen :
      Reads ['['] (.inside frames expected) (.inside (.array [] :: frames) .itemOrEnd) := by
    rcases hexpected with rfl | rfl <;>
      exact reads_mark (c := '[') (t := .openBracket) (by decide) (fun _ => rfl) _
  have hclose (p : Progress) : Reads [']'] p (p.next .closeBracket) :=
    reads_mark (by decide) (fun _ => rfl) p
  cases h with
  | nil => exact hopen.append (hclose _)
  | @cons v cs vs more hfirst hrest =>
      have hitems := (hfirst (.array [] :: frames) .itemOrEnd (.inr rfl)).append
        (reads_items hrest [v] frames)
      have hall := (hopen.append hitems).append (hclose _)
      rw [intercalate_cons]
      have hvalue : next (.inside (.array (vs.reverse ++ [v]) :: frames) .separator) .closeBracket =
          afterValue (.array (v :: vs) none) frames := by
        show afterValue (.array (vs.reverse ++ [v]).reverse none) frames = _
        rw [List.reverse_append, List.reverse_reverse]
        rfl
      rwa [hvalue] at hall

/-- A text spells a member of an object: a name, and its value behind a colon. -/
def SpellsMember (m : String × Json) (cs : List Char) : Prop :=
  ∃ text, cs = quote m.1 ++ ':' :: text ∧ Spells m.2 text

/-- The member as it stands in the tree. -/
def memberOf (m : String × Json) : Option (List Char) × Json := (some m.1.toList, m.2)

theorem reads_member {m : String × Json} {cs : List Char} (h : SpellsMember m cs)
    (read : List (Option (List Char) × Json)) (outer : List Frame) {expected : Expected}
    (he : expected = .key ∨ expected = .keyOrEnd) :
    Reads cs (.inside (.object read none :: outer) expected)
      (.inside (.object (memberOf m :: read) none :: outer) .separator) := by
  obtain ⟨text, rfl, hvalue⟩ := h
  have hname : Reads (quote m.1) (.inside (.object read none :: outer) expected)
      (.inside (.object read (some m.1.toList) :: outer) .colon) := by
    rcases he with rfl | rfl <;> exact reads_quote m.1 _
  have hcolon := reads_mark (c := ':') (t := .colon) (by decide) (fun _ => rfl)
    (.inside (.object read (some m.1.toList) :: outer) .colon)
  exact hname.append (hcolon.append (hvalue (.object read (some m.1.toList) :: outer) .value
    (.inl rfl)))

/-- The members behind the first one. -/
theorem reads_members {ms : List (String × Json)} {texts : List (List Char)}
    (h : List.Forall₂ SpellsMember ms texts) (read : List (Option (List Char) × Json))
    (outer : List Frame) :
    Reads (texts.flatMap (',' :: ·)) (.inside (.object read none :: outer) .separator)
      (.inside (.object ((ms.map memberOf).reverse ++ read) none :: outer) .separator) := by
  induction h generalizing read with
  | nil => exact reads_nil _
  | cons hfirst hrest ih =>
      have hcomma := reads_mark (c := ',') (t := .comma) (by decide) (fun _ => rfl)
        (.inside (.object read none :: outer) .separator)
      rw [List.flatMap_cons, List.map_cons, List.reverse_cons, List.append_assoc]
      exact (hcomma.append (reads_member hfirst read outer (.inl rfl))).append (ih (_ :: read))

/-- **Members in braces spell an object.** -/
theorem spells_object {ms : List (String × Json)} {texts : List (List Char)}
    (h : List.Forall₂ SpellsMember ms texts) :
    Spells (.object (ms.map memberOf) none) ('\x7b' :: [','].intercalate texts ++ ['\x7d']) := by
  intro frames expected hexpected
  have hopen : Reads ['\x7b'] (.inside frames expected)
      (.inside (.object [] none :: frames) .keyOrEnd) := by
    rcases hexpected with rfl | rfl <;>
      exact reads_mark (c := '\x7b') (t := .openBrace) (by decide) (fun _ => rfl) _
  have hclose (p : Progress) : Reads ['\x7d'] p (p.next .closeBrace) :=
    reads_mark (by decide) (fun _ => rfl) p
  cases h with
  | nil => exact hopen.append (hclose _)
  | @cons m cs ms more hfirst hrest =>
      have hmembers := (reads_member hfirst [] frames (.inr rfl)).append
        (reads_members hrest [memberOf m] frames)
      have hall := (hopen.append hmembers).append (hclose _)
      rw [intercalate_cons]
      have hvalue : next (.inside (.object ((ms.map memberOf).reverse ++ [memberOf m]) none ::
          frames) .separator) .closeBrace =
          afterValue (.object ((m :: ms).map memberOf) none) frames := by
        show
          afterValue (.object ((ms.map memberOf).reverse ++ [memberOf m]).reverse none) frames = _
        rw [List.reverse_append, List.reverse_reverse]
        rfl
      rwa [hvalue] at hall

/-! ## Documents -/

/-- **A text that spells a value is parsed to it**, and nothing follows the value. -/
theorem Spells.parse_eq {v : Json} {cs : List Char} (h : Spells v cs) : parse cs = ⟨v, false⟩ := by
  obtain ⟨toks, htoks, hread⟩ := h [] .value (.inl rfl)
  unfold parse
  rw [htoks.tokens_eq, hread]
  rfl

end Switchboard.Json
