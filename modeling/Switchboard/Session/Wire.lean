import Switchboard.Json.Quote
import Switchboard.Json.Reader
import Switchboard.Session.Inventory
import Switchboard.Session.Selection

/-!
Selections and inventories as JSON.
-/

namespace Switchboard

namespace Selection

/-- The fields of a selection. -/
def fields : List (Json.Field Selection) :=
  [ ⟨"pod", fun v s => do return { s with pod := ← Json.readOption Json.readText v }⟩,
    ⟨"container", fun v s => do return { s with container := ← Json.readOption Json.readText v }⟩,
    ⟨"interactive", fun v s => do
      return { s with interactive := ← Json.readOption Json.readBool v }⟩,
    ⟨"multiple", fun v s => do
      return { s with multiple := ← Json.readOption (Json.readList Json.readText) v }⟩ ]

/-- Reads a selection. Fields may be left out. -/
def ofJson (v : Json) : Except Json.Fault Selection := Json.readRecord fields [] empty v

/-- Reads the text of a selection. -/
def parse (text : String) : Except Json.Fault Selection := Json.readDocument ofJson text

/-- A value, or null. -/
def renderOption {α : Type} (render : α → List Char) : Option α → List Char
  | some a => render a
  | none => "null".toList

/-- Texts in brackets. -/
def renderTexts (texts : List String) : List Char :=
  '[' :: [','].intercalate (texts.map Json.quote) ++ [']']

/-- A member of an object. -/
def renderMember (name : String) (value : List Char) : List Char := Json.quote name ++ ':' :: value

/-- The text of a selection, with all its fields. -/
def render (s : Selection) : String :=
  String.ofList ('\x7b' :: [','].intercalate
    [ renderMember "pod" (renderOption Json.quote s.pod),
      renderMember "container" (renderOption Json.quote s.container),
      renderMember "interactive" (renderOption (fun b => (toString b).toList) s.interactive),
      renderMember "multiple" (renderOption renderTexts s.multiple) ] ++ ['\x7d'])

end Selection

/-! ## Pod lists -/

/-- A pod as a cluster lists it. -/
structure PodListing where
  name : String
  containers : List String
deriving DecidableEq, Repr

namespace PodListing

/-- Reads an object for its name. -/
def readName (v : Json) : Except Json.Fault String :=
  Json.readRecord [⟨"name", fun v _ => Json.readText v⟩] ["name"] "" v

/-- Reads the containers of a pod. -/
def readSpec (v : Json) : Except Json.Fault (List String) :=
  Json.readRecord [⟨"containers", fun v _ => Json.readList readName v⟩] [] [] v

/-- Reads a pod. Without a specification it has no containers. -/
def ofJson (v : Json) : Except Json.Fault PodListing :=
  Json.readRecord
    [ ⟨"metadata", fun v p => do return { p with name := ← readName v }⟩,
      ⟨"spec", fun v p => do
        return { p with containers := (← Json.readOption readSpec v).getD [] }⟩ ]
    ["metadata"] ⟨"", []⟩ v

/-- Reads a list of pods. -/
def readList (v : Json) : Except Json.Fault (List PodListing) :=
  Json.readRecord [⟨"items", fun v _ => Json.readList ofJson v⟩] [] [] v

end PodListing

/-- The inventory that a cluster's list of pods describes. -/
def Inventory.ofListings (pods : List PodListing) : Inventory :=
  .ofList (pods.map fun p => (p.name, p.containers))

/-- Reads the text of a list of pods. -/
def Inventory.parse (text : String) : Except Json.Fault Inventory :=
  Inventory.ofListings <$> Json.readDocument PodListing.readList text

end Switchboard
