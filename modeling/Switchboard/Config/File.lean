import Switchboard.Config.Document

/-!
Configurations in files: where the file is, and what loading and saving make of it.
-/

namespace Switchboard

/-- What is found under a path. -/
inductive FileState where
  | missing
  | directory
  | file (bytes : Bytes)
deriving DecidableEq, Repr

/-- The text of a file, if it can be read as one. -/
def FileState.text? : FileState → Option String
  | file bytes => (Utf8.decode? bytes).map String.ofList
  | _ => none

namespace Config

/-- Why a configuration could not be loaded. -/
inductive LoadError where
  /-- The file is no text. -/
  | unreadable
  /-- The text is no configuration. -/
  | malformed
  | invalid (e : ConfigError)
deriving DecidableEq, Repr

def LoadError.message (path : String) : LoadError → String
  | unreadable => "Failed to read config file " ++ path
  | malformed => "Failed to parse config file " ++ path
  | invalid e => e.message

/-- Loads a configuration. Without a file everything is as usual. -/
def load (state : FileState) : Except LoadError Config :=
  if state = .missing then .ok usual
  else
    match state.text? with
    | none => .error .unreadable
    | some text =>
      match parse text with
      | none => .error .malformed
      | some c =>
        match c.validate with
        | .ok () => .ok c
        | .error e => .error (.invalid e)

/-- Why a configuration could not be saved. -/
inductive SaveError where
  /-- There is no directory for the file. -/
  | directory
  /-- The configuration has no text. -/
  | unwritable
  /-- Something else stands in the place of the file. -/
  | occupied
deriving DecidableEq, Repr

/-- The message about a file in a directory. -/
def SaveError.message (path parent : String) : SaveError → String
  | directory => "Failed to create config dir " ++ parent
  | unwritable => "Failed to serialize config"
  | occupied => "Failed to write config file " ++ path

/-- Saves a configuration in place of what is there. The flag says whether the directory is there or
can be made. -/
def save (c : Config) (hasDirectory : Bool) (state : FileState) :
    FileState × Except SaveError Unit :=
  if !hasDirectory then (state, .error .directory)
  else
    match c.render? with
    | none => (state, .error .unwritable)
    | some text =>
      if state = .directory then (state, .error .occupied) else (.file (bytesOf text), .ok ())

/-! ## Paths -/

/-- Puts a name behind a path. -/
def joinPath (path name : String) : String :=
  if path.isEmpty || path.endsWith "/" then path ++ name else path ++ "/" ++ name

def isAbsolutePath (path : String) : Bool := path.startsWith "/"

/-- The directory for configurations: the one set for that purpose if it is absolute, else one below
the home directory. -/
def directory (home configHome : Option String) : String :=
  match configHome.filter isAbsolutePath with
  | some path => path
  | none => (home.map (joinPath · ".config")).getD "."

/-- The path of the configuration where none is given. -/
def defaultPath (home configHome : Option String) : String :=
  joinPath (joinPath (directory home configHome) "podterm") "config.toml"

end Config

end Switchboard
