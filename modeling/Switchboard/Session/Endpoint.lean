import Switchboard.Session.Key
import Switchboard.Terminal.Error
import Switchboard.Terminal.Grid
import Switchboard.Text.Blank
import Switchboard.Url.Edit
import Switchboard.Url.Parser

/-!
The API host that serves the streams, and the URLs on it: one path per kind of session with the
session in the query, and a side channel for terminal sizes over plain HTTP.
-/

namespace Switchboard

/-- The host with the context that its streams are asked for. -/
structure Endpoint where
  base : Url
  context : Option String
deriving DecidableEq, Repr

/-- Why a scheme and a host are no endpoint. -/
inductive EndpointError where
  | unsupportedScheme (scheme : String)
  | invalidHost (host reason : String)
deriving DecidableEq, Repr

def EndpointError.message : EndpointError → String
  | .unsupportedScheme scheme =>
    "Unsupported stream scheme: " ++ scheme ++ " (expected ws or wss)"
  | .invalidHost host reason => "Invalid API host " ++ host ++ ": " ++ reason

/-- The schemes that streams are served over. -/
def isStreamScheme (scheme : String) : Bool := scheme == "ws" || scheme == "wss"

namespace Endpoint

/-- The endpoint at a host, which may carry a port. The host is read as part of a URL. -/
def ofHost (scheme host : String) : Except EndpointError Endpoint :=
  if !isStreamScheme scheme then .error (.unsupportedScheme scheme)
  else if Text.isBlankText host then .error (.invalidHost host UrlError.emptyHost.message)
  else
    match Url.parse (scheme ++ "://" ++ host ++ "/") with
    | .ok base => .ok ⟨base, none⟩
    | .error e => .error (.invalidHost host e.message)

/-- An empty context is none. -/
def normalContext (context : Option String) : Option String := context.filter (· != "")

/-- Asks for streams of another context. -/
def withContext (e : Endpoint) (context : Option String) : Endpoint :=
  { e with context := normalContext context }

/-- The place of a session's stream. -/
def streamPath : SessionKey → List String
  | .single _ _ true => ["api", "enter"]
  | .single _ _ false => ["api", "logs"]
  | .merged _ => ["api", "logs-multiple"]

/-- What the query says about the session itself. -/
def keyParameters : SessionKey → List (String × String)
  | .single pod container _ => [("name", pod), ("container", container)]
  | .merged selectors => selectors.map (("imageSelector", ·))

/-- The parameters of a stream: the context if there is one, the namespace, and the session. -/
def streamParameters (context : Option String) (ns : String) (key : SessionKey) :
    List (String × String) :=
  (context.map (("context", ·))).toList ++ ("namespace", ns) :: keyParameters key

/-- The stream of a session in a namespace. -/
def streamUrl (e : Endpoint) (key : SessionKey) (ns : String) : Url :=
  (e.base.withPath (streamPath key)).appendQuery (streamParameters e.context ns key)

end Endpoint

/-! ## The side channel for sizes -/

/-- The parameter that ties a size to a stream. -/
def resizeIdParameter (id : String) : String × String := ("resize_id", id)

/-- The parameters of a resize request. -/
def resizeParameters (id : String) (grid : Grid) : List (String × String) :=
  [resizeIdParameter id, ("width", toString grid.cols), ("height", toString grid.rows)]

/-- Adds the resize id to the query of a stream. -/
def Url.withResizeId (u : Url) (id : String) : Url := u.appendQuery [resizeIdParameter id]

/-- The scheme of the side channel: secure where the stream is. -/
def sideScheme (scheme : String) : String :=
  if scheme == "wss" || scheme == "https" then "https" else "http"

/-- The address of a resize request on the host of a URL. -/
def Url.resizeUrl (onHost : Url) (id : String) (grid : Grid) : Except ResizeError Url :=
  match onHost.withNetworkScheme? (sideScheme onHost.scheme) with
  | some u =>
    .ok ({ u.withPath ["api", "resize"] with query := none }.appendQuery (resizeParameters id grid))
  | none => .error (.invalidEndpoint onHost.render)

/-- The address of a resize request on an endpoint. -/
def Endpoint.resizeUrl (e : Endpoint) (id : String) (grid : Grid) : Except ResizeError Url :=
  e.base.resizeUrl id grid

/-- A bearer token that a request can carry: it has no control character but the tab. -/
def isTokenLegal (token : String) : Bool :=
  token.toList.all fun c => c == '\t' || !Host.isControl c

/-- Fails before anything is sent, if it does. -/
def checkResizeRequest (onHost : Url) (token : Option String) (id : String) (grid : Grid) :
    Except ResizeError Url := do
  let u ← onHost.resizeUrl id grid
  if (token.map isTokenLegal).getD true then return u else throw .request

end Switchboard
