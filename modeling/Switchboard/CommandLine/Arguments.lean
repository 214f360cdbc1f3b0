import Switchboard.Config.Basic
import Switchboard.Session.Selection

/-!
What can be said on the command line, and what it means: a selection, and settings that override
those of the configuration.
-/

namespace Switchboard

/-- The arguments given. -/
structure Arguments where
  /-- The path of the configuration. -/
  config : Option String
  host : Option String
  context : Option String
  ns : Option String
  pod : Option String
  container : Option String
  interactive : Bool
  imageSelectors : List String
deriving DecidableEq, Repr

/-- What is given with a value. -/
inductive Setting where
  | config
  | host
  | context
  | ns
  | pod
  | container
  | imageSelector
deriving DecidableEq, Repr

/-- What is given without a value. -/
inductive Switch where
  | interactive
  | help
  | version
deriving DecidableEq, Repr

/-- Why the command line is not read to its end. -/
inductive Stop where
  | help
  | version
  /-- It makes no sense. -/
  | refused
deriving DecidableEq, Repr

namespace Setting

def named? : String → Option Setting
  | "config" => some config
  | "host" => some host
  | "context" => some context
  | "namespace" => some ns
  | "pod" => some pod
  | "container" => some container
  | "image-selector" => some imageSelector
  | _ => none

def lettered? : Char → Option Setting
  | 'n' => some ns
  | 'c' => some container
  | _ => none

end Setting

namespace Switch

def named? : String → Option Switch
  | "interactive" => some interactive
  | "help" => some help
  | "version" => some version
  | _ => none

def lettered? : Char → Option Switch
  | 'h' => some help
  | 'V' => some version
  | _ => none

end Switch

namespace Arguments

def empty : Arguments :=
  { config := none, host := none, context := none, ns := none, pod := none, container := none
    interactive := false, imageSelectors := [] }

/-- Fills a place that has to be free. -/
def fill (place : Option String) (v : String) : Except Stop (Option String) :=
  if place.isSome then .error .refused else .ok (some v)

/-- Gives a setting a value. Only images may be given more than once, and a path is not empty. -/
def set (a : Arguments) (v : String) : Setting → Except Stop Arguments
  | .config =>
    if v.isEmpty then .error .refused
    else (fun place => { a with config := place }) <$> fill a.config v
  | .host => (fun place => { a with host := place }) <$> fill a.host v
  | .context => (fun place => { a with context := place }) <$> fill a.context v
  | .ns => (fun place => { a with ns := place }) <$> fill a.ns v
  | .pod => (fun place => { a with pod := place }) <$> fill a.pod v
  | .container => (fun place => { a with container := place }) <$> fill a.container v
  | .imageSelector => .ok { a with imageSelectors := a.imageSelectors ++ [v] }

/-- Turns on a switch. Help and version are given at once. -/
def turnOn (a : Arguments) : Switch → Except Stop Arguments
  | .interactive => if a.interactive then .error .refused else .ok { a with interactive := true }
  | .help => .error .help
  | .version => .error .version

/-- Tells whether the arguments go together. A pod excludes images. A container or a shell needs a
pod, but where there are images there can be none, and the need is waived. -/
def isConsistent (a : Arguments) : Bool :=
  if a.imageSelectors.isEmpty then a.pod.isSome || (a.container.isNone && !a.interactive)
  else a.pod.isNone

/-! ## Meaning -/

/-- The session asked for. -/
def selection (a : Arguments) : Selection :=
  { pod := a.pod
    container := a.container
    interactive := some a.interactive
    multiple := if a.imageSelectors.isEmpty then none else some a.imageSelectors }

/-- Overrides a configuration. -/
def override (a : Arguments) (c : Config) : Config :=
  { c with
    api :=
      { c.api with
        host := a.host.getD c.api.host
        kubeContext := a.context.or c.api.kubeContext
        ns := a.ns.getD c.api.ns } }

end Arguments

end Switchboard
