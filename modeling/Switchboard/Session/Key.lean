/-!
The identity of a session: one container of one pod, as a log or as a shell, or the merged logs of
several images.
-/

namespace Switchboard

/-- The container of a pod that a session is about. -/
structure Target where
  pod : String
  container : String
deriving DecidableEq, Repr

/-- What a session shows. -/
inductive SessionKey where
  | single (pod container : String) (interactive : Bool)
  | merged (selectors : List String)
deriving DecidableEq, Repr

namespace SessionKey

def isMerged : SessionKey → Bool
  | merged _ => true
  | single .. => false

/-- Only a shell takes input. -/
def isInteractive : SessionKey → Bool
  | single _ _ interactive => interactive
  | merged _ => false

def target? : SessionKey → Option Target
  | single pod container _ => some ⟨pod, container⟩
  | merged _ => none

/-- The name under which a session is drawn. All merged sessions share one. -/
def label : SessionKey → String
  | single pod container interactive =>
    pod ++ ":" ++ container ++ ":" ++ (if interactive then "interactive" else "non-interactive")
  | merged _ => "multi-logs"

/-- The label, with the images of a merged session. -/
def display : SessionKey → String
  | merged selectors => "multi-logs[" ++ ",".intercalate selectors ++ "]"
  | key => key.label

end SessionKey

end Switchboard
