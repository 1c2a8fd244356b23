import PeerCall.CommandLine

/-!
# The program

Reads the settings and the files that its arguments name, and prints what the command line asks for.
-/

namespace PeerCall

/-- The content of a file, if it can be read. -/
def readFile? (path : String) : IO (Option Bytes) := do
  try
    return some (← IO.FS.readBinFile path).toList
  catch _ => return none

/-- Whether there is a file or a directory. -/
def fileExists (path : String) : IO Bool := do
  try
    discard (IO.FS.realPath path)
    return true
  catch _ => return false

/-- The settings file: the user's if there is one, readable or not, or else the machine's. -/
def settings? : IO (Option Bytes) := do
  if let some home ← IO.getEnv "HOME" then
    let path := home ++ "/.config/meshcall/config.toml"
    if ← fileExists path then
      return ← readFile? path
  readFile? "/etc/meshcall/config.toml"

/-- Print what the arguments ask for, or say on the error stream why not. -/
def program (arguments : List String) : IO UInt32 := do
  let environment ← ["MESHCALL_ROLE", "MESHCALL_ROOM", "MESHCALL_SIGNALING_URL",
    "MESHCALL_DISCOVERY_PORT", "MESHCALL_TRANSPORT_PORT", "MESHCALL_MESH_PORT"].filterMapM
      fun name => do return (← IO.getEnv name).map (name, ·)
  let config := DaemonConfig.load (← settings?) (environment.lookup ·)
  let files ← match Command.parse arguments with
    | .ok (.encode _ path) => (fun content => content.toList.map (path, ·)) <$> readFile? path
    | _ => pure []
  match Command.perform config (files.lookup ·) arguments with
  | .ok text =>
    IO.print text
    return 0
  | .error error =>
    IO.eprintln s!"Error: {error.message}"
    return 1

end PeerCall

def main (arguments : List String) : IO UInt32 := PeerCall.program arguments
