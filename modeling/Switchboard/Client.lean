import Switchboard.CommandLine.Start
import Switchboard.Session.View

/-!
The client of the command line: one session, drawn on the standard output.
-/

namespace Switchboard

namespace Client

/-- The view that a configuration describes. -/
def view {S : Type} (c : Config) (firstNumber : Nat) : Except EndpointError (View S) := do
  return .start (← c.endpoint) c.api.ns c.attachmentOptions (.start 0) firstNumber

/-- Why no session is opened. -/
inductive OpenError where
  | noSession
deriving DecidableEq, Repr

def OpenError.message : OpenError → String
  | noSession => "Selection does not name a session"

/-- Opens the selected session on a surface. -/
def openSession {S : Type} [Surface S] (surface : S) (selection : Selection) (v : View S) :
    Except OpenError (View S × SessionKey) :=
  let v := v.select (fun _ => some surface) selection
  match v.highlighted with
  | some key => .ok (v, key)
  | none => .error .noSession

end Client

end Switchboard
