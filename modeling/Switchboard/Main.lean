import Switchboard.Client

/-!
The program: it looks at the environment and the files, and says what the command line comes to.
-/

open Switchboard

/-- Finds out what is under a path. A path through something that is no directory leads nowhere. -/
def fileState (path : String) : IO FileState := do
  try
    return .file (← IO.FS.readBinFile path).toList
  catch
    | .noFileOrDirectory .. => return .missing
    | .inappropriateType (some _) .. => return .missing
    | _ => return .directory

/-- Says what went wrong. -/
def complain (text : String) (code : UInt32) : IO UInt32 := do
  IO.eprintln text
  return code

/-- Opens a session and draws what it has to show so far. -/
def run (s : CommandLine.Session) : IO UInt32 := do
  let number ← IO.rand 0 0x4000000000000000
  match Client.view s.config number with
  | .error e => complain ("Error: " ++ e.message) 1
  | .ok view =>
    match Client.openSession Console.start s.selection view with
    | .error e => complain ("Error: " ++ e.message) 1
    | .ok (_, key) => complain ("Error: no terminal for " ++ key.display) 1

def main (words : List String) : IO UInt32 := do
  let defaultPath := Config.defaultPath (← IO.getEnv "HOME") (← IO.getEnv "XDG_CONFIG_HOME")
  let path := match CommandLine.parse words with
    | .ok arguments => arguments.config.getD defaultPath
    | .error _ => defaultPath
  let state ← fileState path
  match CommandLine.start (fun _ => state) defaultPath words with
  | .help =>
    IO.println CommandLine.helpText
    return 0
  | .version =>
    IO.println CommandLine.versionText
    return 0
  | .usage => complain (CommandLine.usageText ++ "\n\nFor more information, try '--help'.") 2
  | .failed e => complain ("Error: " ++ e.message) 1
  | .ready session => run session
