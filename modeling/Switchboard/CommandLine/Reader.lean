import Switchboard.CommandLine.Arguments

/-!
Reading the command line from left to right. The value of a setting is part of its word or the next
word; it is looked at when the word behind it is, or when the words are at their end. So help is
given if it is asked for before anything goes wrong.
-/

namespace Switchboard

namespace CommandLine

/-- How far the command line has been read. -/
structure Reading where
  arguments : Arguments
  /-- The setting that has not been looked at yet, with its value if that has been read. -/
  pending : Option (Setting × Option String)
  /-- The mark behind which there are no settings any more. -/
  ended : Bool
deriving DecidableEq, Repr

namespace Reading

def start : Reading := ⟨.empty, none, false⟩

/-- Looks at the pending setting. -/
def settle (r : Reading) : Except Stop Reading :=
  match r.pending with
  | none => .ok r
  | some (_, none) => .error .refused
  | some (setting, some v) =>
    (fun arguments => { r with arguments, pending := none }) <$> r.arguments.set v setting

/-- Takes a setting whose value follows. -/
def await (setting : Setting) (r : Reading) : Except Stop Reading :=
  (fun r => { r with pending := some (setting, none) }) <$> r.settle

/-- Takes a setting with its value. -/
def give (setting : Setting) (v : String) (r : Reading) : Except Stop Reading := do
  let r ← r.settle
  return { r with arguments := ← r.arguments.set v setting }

/-- Takes a switch. -/
def turnOn (switch : Switch) (r : Reading) : Except Stop Reading := do
  let r ← r.settle
  return { r with arguments := ← r.arguments.turnOn switch }

/-- Reads letters behind one dash. The first setting among them has the rest as its value. -/
def letters : List Char → Reading → Except Stop Reading
  | [], r => .ok r
  | c :: rest, r =>
    match Switch.lettered? c, Setting.lettered? c with
    | some switch, _ => do letters rest (← r.turnOn switch)
    | none, some setting =>
      match rest with
      | [] => r.await setting
      | '=' :: v => r.give setting (String.ofList v)
      | v => r.give setting (String.ofList v)
    | none, none => .error .refused

/-- Reads a name behind two dashes, and the value behind `=` if there is one. -/
def long (name : String) (v : Option String) (r : Reading) : Except Stop Reading :=
  match Setting.named? name, Switch.named? name, v with
  | some setting, _, some v => r.give setting v
  | some setting, _, none => r.await setting
  | none, some switch, none => r.turnOn switch
  | none, _, _ => .error .refused

/-- Reads a word that is a value. -/
def value (v : String) (r : Reading) : Except Stop Reading :=
  match r.pending with
  | some (setting, none) => .ok { r with pending := some (setting, some v) }
  | _ => .error .refused

/-- Splits a word at its first `=`. -/
def splitAtEquals (cs : List Char) : String × Option String :=
  match cs.dropWhile (· != '=') with
  | _ :: v => (String.ofList (cs.takeWhile (· != '=')), some (String.ofList v))
  | [] => (String.ofList cs, none)

/-- Reads a word. -/
def word (r : Reading) (w : String) : Except Stop Reading :=
  if r.ended then .error .refused
  else
    match w.toList with
    | ['-', '-'] => .ok { r with ended := true }
    | '-' :: '-' :: rest => r.long (splitAtEquals rest).1 (splitAtEquals rest).2
    | '-' :: c :: rest => r.letters (c :: rest)
    | _ => r.value w

end Reading

/-- Reads all words. -/
def parse (words : List String) : Except Stop Arguments := do
  -- Whether the settings go together is asked only when all of them are known.
  let r ← words.foldlM Reading.word .start
  let r ← r.settle
  if r.arguments.isConsistent then return r.arguments else throw .refused

end CommandLine

end Switchboard
