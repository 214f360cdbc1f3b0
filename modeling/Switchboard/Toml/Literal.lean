import Switchboard.Text.Hex

/-!
String literals of TOML: basic and literal strings, each on one line or on several. The readers
begin behind the opening quotes and give the text together with what follows the closing ones.
-/

namespace Switchboard

namespace Toml

def isSpace (c : Char) : Bool := c == ' ' || c == '\t'

/-- Drops spaces and tabs. -/
def skipSpace (cs : List Char) : List Char := cs.dropWhile isSpace

/-- The rest behind the end of a line. -/
def newline? : List Char → Option (List Char)
  | '\n' :: rest => some rest
  | '\r' :: '\n' :: rest => some rest
  | _ => none

/-- Drops spaces, tabs and line ends. -/
def skipBlank : List Char → List Char
  | '\r' :: '\n' :: rest => skipBlank rest
  | c :: rest => if isSpace c || c == '\n' then skipBlank rest else c :: rest
  | [] => []

/-- Characters that are no control characters, and the tab. -/
def isPrintable (c : Char) : Bool := c == '\t' || 0x20 ≤ c.toNat && c.toNat != 0x7F

/-- The character of a code in hexadecimal digits. -/
def charOfCode? (digits : List Char) : Option Char := do
  let n ← Hex.number? 16 digits
  if n.isValidChar then some (Char.ofNat n) else none

/-- Reads the code of a character in a given number of digits. -/
def readCode (n : Nat) (cs : List Char) : Option (Char × List Char) :=
  if n ≤ cs.length then (charOfCode? (cs.take n)).map (·, cs.drop n) else none

/-- Reads what stands behind a backslash. -/
def readEscape : List Char → Option (Char × List Char)
  | 'b' :: rest => some ('\x08', rest)
  | 't' :: rest => some ('\t', rest)
  | 'n' :: rest => some ('\n', rest)
  | 'f' :: rest => some ('\x0C', rest)
  | 'r' :: rest => some ('\r', rest)
  | '"' :: rest => some ('"', rest)
  | '\\' :: rest => some ('\\', rest)
  | 'u' :: rest => readCode 4 rest
  | 'U' :: rest => readCode 8 rest
  | _ => none

theorem length_le_of_readCode {n : Nat} {cs rest : List Char} {c : Char}
    (h : readCode n cs = some (c, rest)) : rest.length ≤ cs.length := by
  unfold readCode at h
  split at h
  · obtain ⟨_, _, h⟩ := Option.map_eq_some_iff.1 h
    cases h
    simp
  · cases h

/-- What is left behind an escape is shorter. -/
theorem length_lt_of_readEscape {cs rest : List Char} {c : Char}
    (h : readEscape cs = some (c, rest)) : rest.length < cs.length := by
  unfold readEscape at h
  split at h
  case h_8 | h_9 => exact Nat.lt_succ_of_le (length_le_of_readCode h)
  all_goals cases h <;> simp

theorem length_skipBlank_le (cs : List Char) : (skipBlank cs).length ≤ cs.length := by
  fun_induction skipBlank cs with
  | case1 rest ih => simp only [List.length_cons]; omega
  | case2 c rest _ _ ih => simp only [List.length_cons]; omega
  | case3 | case4 => exact Nat.le_refl _

theorem length_skipSpace_le (cs : List Char) : (skipSpace cs).length ≤ cs.length :=
  (List.dropWhile_sublist _).length_le

theorem length_lt_of_newline? {cs rest : List Char} (h : newline? cs = some rest) :
    rest.length < cs.length := by
  unfold newline? at h
  split at h <;> cases h <;> simp only [List.length_cons] <;> omega

/-- Puts a character in front of what a reader gives. -/
def cons (c : Char) (r : Option (List Char × List Char)) : Option (List Char × List Char) :=
  r.map fun (cs, rest) => (c :: cs, rest)

/-- Reads a basic string on one line. -/
def readBasic (cs : List Char) : Option (List Char × List Char) :=
  match cs with
  | [] => none
  | '"' :: rest => some ([], rest)
  | '\\' :: rest =>
    match h : readEscape rest with
    | some (c, left) =>
      have := length_lt_of_readEscape h
      cons c (readBasic left)
    | none => none
  | c :: rest => if isPrintable c then cons c (readBasic rest) else none
termination_by cs.length
decreasing_by all_goals simp only [List.length_cons]; omega

/-- Splits off at most two quotes that belong to the text, because the closing ones follow last. -/
def extraQuotes (quote : Char) : List Char → List Char × List Char
  | a :: b :: rest =>
    if a == quote then if b == quote then ([a, b], rest) else ([a], b :: rest)
    else ([], a :: b :: rest)
  | [a] => if a == quote then ([a], []) else ([], [a])
  | [] => ([], [])

/-- Reads a basic string on several lines. A backslash at the end of a line joins it with the next
text. -/
def readLongBasic (cs : List Char) : Option (List Char × List Char) :=
  match cs with
  | [] => none
  | '"' :: '"' :: '"' :: rest => some (extraQuotes '"' rest)
  | '\\' :: rest =>
    match hn : newline? (skipSpace rest) with
    | some next =>
      have := length_lt_of_newline? hn
      have := length_skipSpace_le rest
      have := length_skipBlank_le next
      -- The blanks in front of the next text go with the line end.
      readLongBasic (skipBlank next)
    | none =>
      match h : readEscape rest with
      | some (c, left) =>
        have := length_lt_of_readEscape h
        cons c (readLongBasic left)
      | none => none
  | '\r' :: '\n' :: rest => cons '\n' (readLongBasic rest)
  | c :: rest => if isPrintable c || c == '\n' then cons c (readLongBasic rest) else none
termination_by cs.length
decreasing_by all_goals simp only [List.length_cons]; omega

/-- Reads a literal string on one line. -/
def readLiteral : List Char → Option (List Char × List Char)
  | [] => none
  | '\'' :: rest => some ([], rest)
  | c :: rest => if isPrintable c then cons c (readLiteral rest) else none

/-- Reads a literal string on several lines. -/
def readLongLiteral : List Char → Option (List Char × List Char)
  | [] => none
  | '\'' :: '\'' :: '\'' :: rest => some (extraQuotes '\'' rest)
  | '\r' :: '\n' :: rest => cons '\n' (readLongLiteral rest)
  | c :: rest => if isPrintable c || c == '\n' then cons c (readLongLiteral rest) else none

/-- Drops the line end directly behind opening quotes. -/
def skipFirstNewline (cs : List Char) : List Char := (newline? cs).getD cs

/-- Reads a string literal with its quotes. -/
def readString : List Char → Option (List Char × List Char)
  | '"' :: '"' :: '"' :: rest => readLongBasic (skipFirstNewline rest)
  | '"' :: rest => readBasic rest
  | '\'' :: '\'' :: '\'' :: rest => readLongLiteral (skipFirstNewline rest)
  | '\'' :: rest => readLiteral rest
  | _ => none

/-- Reads a string literal on one line with its quotes. -/
def readShortString : List Char → Option (List Char × List Char)
  | '"' :: rest => readBasic rest
  | '\'' :: rest => readLiteral rest
  | _ => none

end Toml

end Switchboard
