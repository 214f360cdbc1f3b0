import Switchboard.Toml.Scalar

/-!
Reading TOML: keys, values, and documents as lists of statements. A document is right as a whole or
not at all.
-/

namespace Switchboard

namespace Toml

/-! ## Keys -/

/-- Characters of a key that needs no quotes. -/
def isBare (c : Char) : Bool := c.isAlphanum || c == '-' || c == '_'

/-- Reads one part of a key. -/
def readPart (cs : List Char) : Option (String × List Char) :=
  match cs with
  | '"' :: _ | '\'' :: _ => (readShortString cs).map fun (name, rest) => (String.ofList name, rest)
  | cs =>
    let name := cs.takeWhile isBare
    if name.isEmpty then none else some (String.ofList name, cs.dropWhile isBare)

/-- Reads the parts of a key, with points between them and blanks around each. -/
def readParts (cs : List Char) : Option (List String × List Char) := do
  let (name, rest) ← readPart (skipSpace cs)
  match skipSpace rest with
  | '.' :: next =>
    if next.length < cs.length then
      let (names, left) ← readParts next
      return (name :: names, left)
    else none
  | left => return ([name], left)
termination_by cs.length

/-- Nothing is nested as deeply as this. -/
def depthLimit : Nat := 80

/-- Reads a key. -/
def readKey (cs : List Char) : Option (Key × List Char) := do
  let (names, rest) ← readParts cs
  let name ← names.getLast?
  if names.length < depthLimit then some (⟨names.dropLast, name⟩, rest) else none

/-! ## Values -/

/-- Drops a comment, which runs to the end of its line. -/
def skipComment : List Char → List Char
  | '#' :: rest => rest.dropWhile isPrintable
  | cs => cs

/-- Drops blanks, line ends and comments, as they may stand between the items of an array. -/
def skipGap (cs : List Char) : List Char :=
  match skipBlank cs with
  | '#' :: rest =>
    match newline? (rest.dropWhile isPrintable) with
    | some next => if next.length < cs.length then skipGap next else next
    | none => '#' :: rest
  | rest => rest
termination_by cs.length

/-- Reads items with commas between them, up to the closing bracket. A comma may follow the last
one. -/
def readItems (readItem : List Char → Option (Value × List Char)) (cs : List Char) :
    Option (List Value × List Char) :=
  match skipGap cs with
  | ']' :: rest => some ([], rest)
  | start => do
    let (v, rest) ← readItem start
    match skipGap rest with
    | ',' :: next =>
      if next.length < cs.length then
        let (vs, left) ← readItems readItem next
        return (v :: vs, left)
      else none
    | ']' :: left => return ([v], left)
    | _ => none
termination_by cs.length

/-- Reads an assignment. -/
def readAssignment (readItem : List Char → Option (Value × List Char)) (cs : List Char) :
    Option ((Key × Value) × List Char) := do
  let (key, rest) ← readKey cs
  let rest ← expect '=' rest
  let (v, rest) ← readItem (skipSpace rest)
  return ((key, v), rest)

/-- Reads assignments with commas between them, up to the closing brace. All stand on one line, and
no comma follows the last one. -/
def readPairs (readItem : List Char → Option (Value × List Char)) (cs : List Char) :
    Option (List (Key × Value) × List Char) := do
  let (pair, rest) ← readAssignment readItem cs
  match skipSpace rest with
  | ',' :: next =>
    if next.length < cs.length then
      let (pairs, left) ← readPairs readItem next
      return (pair :: pairs, left)
    else none
  | '}' :: left => return ([pair], left)
  | _ => none
termination_by cs.length

/-- Reads the inside of an inline table. -/
def readInline (readItem : List Char → Option (Value × List Char)) (cs : List Char) :
    Option (Value × List Char) := do
  let (pairs, rest) ← match skipSpace cs with
    | '}' :: left => some ([], left)
    | _ => readPairs readItem cs
  let v ← inlineTable? pairs
  return (v, rest)

/-- Reads a value, in which arrays and inline tables may be nested to a depth. -/
def readValue (depth : Nat) (cs : List Char) : Option (Value × List Char) :=
  match cs with
  | '"' :: _ | '\'' :: _ => (readString cs).map fun (t, rest) => (.text (String.ofList t), rest)
  | 't' :: 'r' :: 'u' :: 'e' :: rest => some (.boolean true, rest)
  | 'f' :: 'a' :: 'l' :: 's' :: 'e' :: rest => some (.boolean false, rest)
  | '[' :: rest =>
    match depth with
    | 0 => none
    | depth + 1 => (readItems (readValue depth) rest).map fun (vs, left) => (.array vs, left)
  | '\x7b' :: rest =>
    match depth with
    | 0 => none
    | depth + 1 => readInline (readValue depth) rest
  | cs => readNumeric cs
termination_by structural depth

/-! ## Documents -/

/-- Ends a line, on which only a comment may still stand. -/
def endLine (cs : List Char) : Option (List Char) :=
  match skipComment (skipSpace cs) with
  | [] => some []
  | rest => newline? rest

/-- Reads a statement with the rest of its line. -/
def readStatement (cs : List Char) : Option (Statement × List Char) :=
  match cs with
  | '[' :: '[' :: rest => do
    let (key, rest) ← readKey rest
    let rest ← endLine (← expect ']' (← expect ']' rest))
    return (.repeatedHeader key, rest)
  | '[' :: rest => do
    let (key, rest) ← readKey rest
    let rest ← endLine (← expect ']' rest)
    return (.header key, rest)
  | cs => do
    let ((key, v), rest) ← readAssignment (readValue (depthLimit - 1)) cs
    return (.assign key v, ← endLine rest)

/-- Reads a line, which may say nothing. -/
def readLine (cs : List Char) : Option (Option Statement × List Char) :=
  match newline? (skipComment cs), cs with
  | some rest, _ => some (none, rest)
  | none, '#' :: rest => if (rest.dropWhile isPrintable).isEmpty then some (none, []) else none
  | none, cs => (readStatement cs).map fun (s, rest) => (some s, rest)

/-- Reads the lines of a document. -/
def readLines (cs : List Char) : Option (List Statement) :=
  match skipSpace cs with
  | [] => some []
  | start => do
    let (s, rest) ← readLine start
    if rest.length < cs.length then return s.toList ++ (← readLines rest) else none
termination_by cs.length

/-- Reads a document. A byte order mark in front of it does not count. -/
def parse (text : String) : Option Entries := do
  let cs := match text.toList with
    | '\uFEFF' :: rest => rest
    | cs => cs
  ofStatements? (← readLines cs)

end Toml

end Switchboard
