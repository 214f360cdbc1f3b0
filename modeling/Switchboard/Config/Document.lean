import Switchboard.Config.Basic
import Switchboard.Toml.Reader
import Switchboard.Toml.Writer

/-!
Configurations as TOML documents. What a document leaves out has its usual value, and what it has
beyond that is passed over. A record may also be written as an array of its fields in their order.
-/

namespace Switchboard

namespace Toml

/-- A field of a record: its name, and how its value is taken over. -/
structure Field (α : Type) where
  name : String
  read : Value → α → Option α

/-- Reads a table entry by entry. -/
def readEntries {α : Type} (fields : List (Field α)) (usual : α) (entries : Entries) : Option α :=
  entries.foldlM
    (fun record entry =>
      match fields.find? (·.name == entry.1) with
      | some field => field.read entry.2 record
      | none => some record)
    usual

/-- Reads fields by their places. -/
def readInOrder {α : Type} (fields : List (Field α)) (usual : α) (items : List Value) : Option α :=
  (fields.zip items).foldlM (fun record pair => pair.1.read pair.2 record) usual

/-- Reads a record. A date counts as a record that says nothing. -/
def readRecord {α : Type} (fields : List (Field α)) (usual : α) : Value → Option α
  | .table _ entries => readEntries fields usual entries
  | .array items => readInOrder fields usual items
  | .tables elements => readInOrder fields usual (elements.map (.table .header ·))
  | .moment _ => some usual
  | _ => none

def readText : Value → Option String
  | .text s => some s
  | _ => none

def readBoolean : Value → Option Bool
  | .boolean b => some b
  | _ => none

/-- Reads a whole number that is not negative. -/
def readNat : Value → Option Nat
  | .integer n => if 0 ≤ n then some n.toNat else none
  | _ => none

end Toml

open Toml in
def ApiConfig.fields : List (Toml.Field ApiConfig) :=
  [ ⟨"scheme", fun v c => do return { c with scheme := ← readText v }⟩,
    ⟨"host", fun v c => do return { c with host := ← readText v }⟩,
    ⟨"kube_context", fun v c => do return { c with kubeContext := some (← readText v) }⟩,
    ⟨"namespace", fun v c => do return { c with ns := ← readText v }⟩,
    ⟨"auth_token", fun v c => do return { c with authToken := some (← readText v) }⟩ ]

open Toml in
def TerminalConfig.fields : List (Toml.Field TerminalConfig) :=
  [ ⟨"close_on_connection_lost", fun v c => do
      return { c with closeOnConnectionLost := ← readBoolean v }⟩,
    ⟨"close_delay_ms", fun v c => do return { c with closeDelayMs := ← readNat v }⟩,
    ⟨"remote_resize", fun v c => do return { c with remoteResize := ← readBoolean v }⟩ ]

namespace Config

open Toml

def fields : List (Toml.Field Config) :=
  [ ⟨"api", fun v c => do return { c with api := ← readRecord ApiConfig.fields .usual v }⟩,
    ⟨"terminal", fun v c => do
      return { c with terminal := ← readRecord TerminalConfig.fields .usual v }⟩ ]

/-- Reads the text of a configuration. -/
def parse (text : String) : Option Config := do
  readEntries fields usual (← Toml.parse text)

/-- The delay is written as a number with a sign. -/
def maxDelay : Nat := 0x7fffffffffffffff

/-- The section about the API. What is not set is left out. -/
def renderApi (c : ApiConfig) : List Char :=
  renderSection "api"
    ([("scheme", renderText c.scheme), ("host", renderText c.host)] ++
      (c.kubeContext.map (("kube_context", renderText ·))).toList ++
      [("namespace", renderText c.ns)] ++
      (c.authToken.map (("auth_token", renderText ·))).toList)

/-- The section about terminals. -/
def renderTerminal (c : TerminalConfig) : List Char :=
  renderSection "terminal"
    [ ("close_on_connection_lost", (toString c.closeOnConnectionLost).toList),
      ("close_delay_ms", (toString c.closeDelayMs).toList),
      ("remote_resize", (toString c.remoteResize).toList) ]

/-- The text of a configuration. There is none for a delay that is too long. -/
def render? (c : Config) : Option String :=
  if c.terminal.closeDelayMs ≤ maxDelay then
    some (renderSections [renderApi c.api, renderTerminal c.terminal])
  else none

end Config

end Switchboard
