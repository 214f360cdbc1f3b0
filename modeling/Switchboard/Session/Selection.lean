import Switchboard.Session.Key

/-!
Selections: what a user interface or a command line asks for. A selection may be incomplete, and
then names no session.
-/

namespace Switchboard

/-- A choice of session, field by field. -/
structure Selection where
  pod : Option String
  container : Option String
  interactive : Option Bool
  multiple : Option (List String)
deriving DecidableEq, Repr

namespace Selection

/-- The empty selection. -/
def empty : Selection := ⟨none, none, none, none⟩

/-- The session selected. Images win over a container, and a session is a log unless a shell is
asked for. -/
def key? (s : Selection) : Option SessionKey :=
  match s.multiple with
  | some (image :: images) => some (.merged (image :: images))
  | _ =>
    match s.pod, s.container with
    | some pod, some container => some (.single pod container (s.interactive.getD false))
    | _, _ => none

/-- The selection of a session. -/
def ofKey : SessionKey → Selection
  | .single pod container interactive => ⟨some pod, some container, some interactive, none⟩
  | .merged selectors => ⟨none, none, none, some selectors⟩

/-- A session selected by its own selection is itself, unless it merges nothing. -/
theorem key?_ofKey {key : SessionKey} (h : key ≠ .merged []) : (ofKey key).key? = some key := by
  match key with
  | .single .. => rfl
  | .merged [] => exact absurd rfl h
  | .merged (_ :: _) => rfl

end Selection

end Switchboard
