import Switchboard.Session.Attachment

/-!
The configuration: where the sessions are served, and what happens when a stream is lost.
-/

namespace Switchboard

/-- Where the sessions are served. -/
structure ApiConfig where
  scheme : String
  /-- The host, maybe with a port. -/
  host : String
  kubeContext : Option String
  ns : String
  /-- Sent along with resize requests. -/
  authToken : Option String
deriving DecidableEq, Repr

/-- How terminals behave. -/
structure TerminalConfig where
  closeOnConnectionLost : Bool
  /-- No delay if zero. -/
  closeDelayMs : Nat
  remoteResize : Bool
deriving DecidableEq, Repr

structure Config where
  api : ApiConfig
  terminal : TerminalConfig
deriving DecidableEq, Repr

/-- What is wrong with a configuration. -/
inductive ConfigError where
  | invalidScheme (scheme : String)
  | emptyHost
  | emptyNamespace
deriving DecidableEq, Repr

def ConfigError.message : ConfigError → String
  | .invalidScheme scheme => "api.scheme must be ws or wss, got " ++ scheme
  | .emptyHost => "api.host must not be empty"
  | .emptyNamespace => "api.namespace must not be empty"

def ApiConfig.usual : ApiConfig :=
  { scheme := "ws", host := "localhost:8090", kubeContext := none, ns := "default"
    authToken := none }

def TerminalConfig.usual : TerminalConfig :=
  { closeOnConnectionLost := true, closeDelayMs := 0, remoteResize := true }

namespace Config

/-- The configuration that counts where nothing else is said. -/
def usual : Config := ⟨.usual, .usual⟩

/-- Looks for what is wrong, scheme first, then host, then namespace. -/
def validate (c : Config) : Except ConfigError Unit :=
  if !isStreamScheme c.api.scheme then .error (.invalidScheme c.api.scheme)
  else if Text.isBlankText c.api.host then .error .emptyHost
  else if Text.isBlankText c.api.ns then .error .emptyNamespace
  else .ok ()

/-- The endpoint that the configuration names. -/
def endpoint (c : Config) : Except EndpointError Endpoint :=
  (Endpoint.withContext · c.api.kubeContext) <$> Endpoint.ofHost c.api.scheme c.api.host

def attachmentOptions (c : Config) : AttachmentOptions :=
  { closeOnConnectionLost := c.terminal.closeOnConnectionLost
    closeDelay := if c.terminal.closeDelayMs = 0 then none else some c.terminal.closeDelayMs
    remoteResize := c.terminal.remoteResize }

end Config

end Switchboard
