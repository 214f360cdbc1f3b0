import Switchboard.Session.Key
import Switchboard.Url.Basic

/-!
Descriptors: what the registry knows about an open session.
-/

namespace Switchboard

/-- Why a session left the registry. -/
inductive CloseReason where
  | none
  /-- The stream was lost. -/
  | lost
  /-- The user killed the terminal. -/
  | manual
deriving DecidableEq, Repr

/-- An open session. -/
structure Descriptor where
  key : SessionKey
  streamUrl : Url
  visible : Bool
  reason : CloseReason
  /-- The line drawn above the terminal. -/
  firstLine : Option String
deriving DecidableEq, Repr

namespace Descriptor

/-- The command that opens the session from a shell. Merged logs have none. -/
def annotation (ns : String) : SessionKey → Option String
  | .single pod container interactive =>
    some ("devspace " ++ (if interactive then "enter" else "logs") ++ " -n " ++ ns ++
      " --pod " ++ pod ++ " -c " ++ container)
  | .merged _ => .none

/-- A session that has just been opened. -/
def opened (key : SessionKey) (streamUrl : Url) (ns : String) : Descriptor :=
  { key, streamUrl, visible := true, reason := .none, firstLine := annotation ns key }

end Descriptor

end Switchboard
