import Switchboard.Text.Hex

/-!
Writing TOML strings as they are easiest to read: with as few escapes as possible, and with line
ends as line ends. What a text holds decides which quotes it gets.
-/

namespace Switchboard

namespace Toml

/-- The four kinds of string literals. -/
inductive Quoting where
  | basic
  | literal
  | longBasic
  | longLiteral
deriving DecidableEq, Repr

/-- The length of the longest run of a character. The first number counts the current run. -/
def longestRunFrom (q : Char) (run longest : Nat) : List Char → Nat
  | [] => max run longest
  | c :: rest =>
    if c = q then longestRunFrom q (run + 1) longest rest
    else longestRunFrom q 0 (max run longest) rest

def longestRun (q : Char) (cs : List Char) : Nat := longestRunFrom q 0 0 cs

/-- Control characters that no literal holds as they are. -/
def isUnwritable (c : Char) : Bool := (c.toNat < 0x20 && c != '\t' && c != '\n') || c.toNat = 0x7F

/-- The quotes for a text: the first with which it needs no escapes, and basic ones if there are
none. -/
def quotingFor (cs : List Char) : Quoting :=
  let long := cs.contains '\n'
  let unwritable := cs.any isUnwritable
  let escape := cs.contains '\\'
  if !unwritable && !escape && !long && longestRun '"' cs = 0 then .basic
  else if !unwritable && !long && longestRun '\'' cs = 0 then .literal
  else if !unwritable && !escape && longestRun '"' cs ≤ 2 then .longBasic
  else if !unwritable && longestRun '\'' cs ≤ 2 then .longLiteral
  else if long then .longBasic
  else .basic

/-- The escape of a control character. -/
def escapeControl (c : Char) : List Char :=
  match c with
  | '\x08' => ['\\', 'b']
  | '\t' => ['\\', 't']
  | '\n' => ['\\', 'n']
  | '\x0C' => ['\\', 'f']
  | '\r' => ['\\', 'r']
  | c => ['\\', 'u', '0', '0', Hex.upper (c.toNat / 16), Hex.upper (c.toNat % 16)]

/-- Writes the inside of a basic string, in which a number of quotes may stand side by side. The
first number says how many more may follow. -/
def escapeFrom (quotes : Nat) (long : Bool) (free : Nat) : List Char → List Char
  | [] => []
  | c :: rest =>
    if c = '"' then
      match free with
      | 0 => '\\' :: '"' :: escapeFrom quotes long quotes rest
      | free + 1 => '"' :: escapeFrom quotes long free rest
    else if c = '\\' then '\\' :: '\\' :: escapeFrom quotes long quotes rest
    else if c = '\n' ∧ long then '\n' :: escapeFrom quotes long quotes rest
    else if c.toNat < 0x20 ∨ c.toNat = 0x7F then
      escapeControl c ++ escapeFrom quotes long quotes rest
    else c :: escapeFrom quotes long quotes rest

/-- The opening quotes of a literal on several lines. A text with line ends begins on a line of its
own. -/
def opening (quotes cs : List Char) : List Char :=
  quotes ++ if cs.contains '\n' then ['\n'] else []

/-- Writes a text with given quotes. -/
def renderAs (q : Quoting) (cs : List Char) : List Char :=
  match q with
  | .basic => ['"'] ++ escapeFrom 0 false 0 cs ++ ['"']
  | .literal => ['\''] ++ cs ++ ['\'']
  | .longBasic => opening ['"', '"', '"'] cs ++ escapeFrom 2 true 2 cs ++ ['"', '"', '"']
  | .longLiteral => opening ['\'', '\'', '\''] cs ++ cs ++ ['\'', '\'', '\'']

/-- Writes a text with the quotes that suit it. -/
def renderText (s : String) : List Char := renderAs (quotingFor s.toList) s.toList

/-! ## Sections -/

/-- Writes an assignment on a line. -/
def renderAssignment (name : String) (v : List Char) : List Char :=
  name.toList ++ [' ', '=', ' '] ++ v ++ ['\n']

/-- Writes a header and the assignments below it. -/
def renderSection (name : String) (assignments : List (String × List Char)) : List Char :=
  ['['] ++ name.toList ++ [']', '\n'] ++
    assignments.flatMap fun a => renderAssignment a.1 a.2

/-- Writes sections with a blank line between them. -/
def renderSections (sections : List (List Char)) : String :=
  String.ofList (['\n'].intercalate sections)

end Toml

end Switchboard
