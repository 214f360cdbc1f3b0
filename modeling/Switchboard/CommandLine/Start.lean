import Switchboard.CommandLine.Reader
import Switchboard.Config.File

/-!
From the command line to a session: the words are read, the configuration is loaded and overridden,
and everything is checked before the terminal is touched. The first check that fails decides the
message.
-/

namespace Switchboard

namespace CommandLine

/-- Why no session is started. -/
inductive StartError where
  | load (path : String) (e : Config.LoadError)
  | config (e : ConfigError)
  | noSession
  | endpoint (e : EndpointError)
deriving DecidableEq, Repr

def StartError.message : StartError → String
  | load path e => e.message path
  | config e => e.message
  | noSession => "Pass --pod with -c, or at least one --image-selector"
  | endpoint e => e.message

/-- What a session is started with. -/
structure Session where
  config : Config
  selection : Selection
  endpoint : Endpoint
deriving DecidableEq, Repr

/-- Prepares the session that arguments ask for, given what is found under each path. -/
def prepare (files : String → FileState) (defaultPath : String) (a : Arguments) :
    Except StartError Session := do
  let path := a.config.getD defaultPath
  let loaded ← (Config.load (files path)).mapError (.load path)
  let config := a.override loaded
  config.validate.mapError .config
  if a.selection.key?.isNone then throw .noSession
  let endpoint ← config.endpoint.mapError .endpoint
  return { config, selection := a.selection, endpoint }

/-- What comes of a command line. -/
inductive Outcome where
  | help
  | version
  /-- The words make no sense. -/
  | usage
  | failed (e : StartError)
  | ready (s : Session)
deriving DecidableEq, Repr

def start (files : String → FileState) (defaultPath : String) (words : List String) : Outcome :=
  match parse words with
  | .error .help => .help
  | .error .version => .version
  | .error .refused => .usage
  | .ok a =>
    match prepare files defaultPath a with
    | .ok s => .ready s
    | .error e => .failed e

/-! ## Texts -/

def name : String := "podterm"

def versionText : String := name ++ " 0.1.0"

def usageText : String := "Usage: " ++ name ++ " [OPTIONS]"

def helpText : String :=
  "\n".intercalate
    [ "Attach to pod logs and shells through the UI server",
      "",
      usageText,
      "",
      "Options:",
      "      --config <CONFIG>                  Config file " ++
        "(defaults to ~/.config/podterm/config.toml)",
      "      --host <HOST>                      API host, with optional port",
      "      --context <CONTEXT>                Kube context to pass to the server",
      "  -n, --namespace <NAMESPACE>            ",
      "      --pod <POD>                        ",
      "  -c, --container <CONTAINER>            ",
      "      --interactive                      Open a shell instead of following logs",
      "      --image-selector <IMAGE_SELECTOR>  Merge logs of every container " ++
        "running this image; repeatable",
      "  -h, --help                             Print help",
      "  -V, --version                          Print version" ]

end CommandLine

end Switchboard
