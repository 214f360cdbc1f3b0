/-!
What can go wrong with streams and resize requests.
-/

namespace Switchboard

/-- Why input was not taken, or a stream not opened. -/
inductive StreamError where
  | readOnly
  | closed
  | connectFailed (detail : String)
deriving DecidableEq, Repr

def StreamError.message : StreamError → String
  | .readOnly => "Stream is read-only"
  | .closed => "Stream already closed"
  | .connectFailed detail => "Connection failed: " ++ detail

/-- Why a resize request failed. -/
inductive ResizeError where
  /-- No request address can be derived from the URL. -/
  | invalidEndpoint (url : String)
  /-- The request cannot be built. -/
  | request
  | rejected (status : Nat)
deriving DecidableEq, Repr

def ResizeError.message : ResizeError → String
  | .invalidEndpoint url => "Invalid resize endpoint: " ++ url
  | .request => "Resize request failed: builder error"
  | .rejected status => "Resize rejected with status " ++ toString status

end Switchboard
