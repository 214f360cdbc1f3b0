import Switchboard.Json.Tree

/-!
Reading values out of JSON trees, from the first token to the last: the first fault met is the
fault of the text. What is not asked for is passed over, but has to be JSON.
-/

namespace Switchboard.Json

/-- The fault of a value that is passed over. -/
def skipFault : Json → Option Fault
  | .array items tail => (skipItems items).or (tail.map Break.skipped)
  | .object members tail => (skipMembers members).or (tail.map Break.skipped)
  | .broken b => some b.skipped
  | _ => none
where
  /-- The first fault among items. -/
  skipItems : List Json → Option Fault
    | [] => none
    | v :: rest => (skipFault v).or (skipItems rest)
  /-- The first fault among members, whose keys are passed over too. -/
  skipMembers : List (Option (List Char) × Json) → Option Fault
    | [] => none
    | (_, v) :: rest => (skipFault v).or (skipMembers rest)

/-- The fault of a value that is read as something it is not. Its text has to be right as far as it
is looked at. -/
def mismatch : Json → Fault
  | .broken b => b.read
  | .number false => .malformed
  | .text none => .malformed
  | _ => .mismatched

/-- Stops at a break. -/
def checkTail (tail : Option Break) : Except Fault Unit :=
  match tail with
  | some b => .error b.read
  | none => .ok ()

def readText : Json → Except Fault String
  | .text (some cs) => .ok (String.ofList cs)
  | v => .error v.mismatch

def readBool : Json → Except Fault Bool
  | .bool b => .ok b
  | v => .error v.mismatch

/-- A value that may be null. -/
def readOption {α : Type} (read : Json → Except Fault α) : Json → Except Fault (Option α)
  | .null => .ok none
  | v => some <$> read v

def readList {α : Type} (read : Json → Except Fault α) : Json → Except Fault (List α)
  | .array items tail => do
    let values ← items.mapM read
    checkTail tail
    return values
  | v => .error v.mismatch

/-! ## Records

A record is an object with known members, or an array of their values in a fixed order. A record is
read member by member into a state that says what has been read of each field.
-/

/-- A field of a record: its name, and how its value enters the state. -/
structure Field (σ : Type) where
  name : String
  read : Json → σ → Except Fault σ

/-- Reads a member of an object. A field given twice is a fault before its value is looked at. -/
def readMember {σ : Type} (fields : List (Field σ)) (state : σ × List String)
    (member : Option (List Char) × Json) : Except Fault (σ × List String) :=
  match member.1 with
  | none => .error .malformed
  | some key =>
    match fields.find? (·.name.toList == key) with
    | some field =>
      if state.2.contains field.name then .error .mismatched
      else do return (← field.read member.2 state.1, field.name :: state.2)
    | none =>
      match skipFault member.2 with
      | some f => .error f
      | none => .ok state

/-- Reads the values of an array into fields. Values without a field are too many. -/
def readPositions {σ : Type} (tail : Option Break) :
    List (Field σ) → List Json → σ × List String → Except Fault (σ × List String)
  | [], [], state => do
    checkTail tail
    return state
  | [], _ :: _, _ => .error .malformed
  | _ :: _, [], state => do
    checkTail tail
    return state
  | field :: fields, v :: rest, state => do
    readPositions tail fields rest (← field.read v state.1, field.name :: state.2)

/-- Reads a record, whose required fields have to be there. -/
def readRecord {σ : Type} (fields : List (Field σ)) (required : List String) (start : σ)
    (v : Json) : Except Fault σ := do
  let (state, given) ← match v with
    | .object members tail => do
      let result ← members.foldlM (readMember fields) (start, [])
      checkTail tail
      pure result
    | .array items tail => readPositions tail fields items (start, [])
    | v => .error v.mismatch
  if required.all given.contains then return state else throw .mismatched

/-- Reads a whole text, behind which nothing may follow. -/
def readDocument {α : Type} (read : Json → Except Fault α) (text : String) : Except Fault α := do
  let d := parse text.toList
  let value ← read d.value
  if d.trailing then throw .malformed else return value

end Switchboard.Json
