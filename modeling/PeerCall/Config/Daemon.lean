import PeerCall.Config.Basic
import PeerCall.Text.Blank
import PeerCall.Text.Utf8
import PeerCall.Toml.Document
import PeerCall.Role

/-!
# The daemon's configuration

Defaults, then the settings file if it is sound, then the environment. A file that cannot be read
or holds an error counts for nothing as a whole; a variable with a bad value is passed over.
-/

namespace PeerCall

/-- All that a daemon is configured with. -/
structure DaemonConfig where
  role : Role
  /-- Only peers in the same room pair up. -/
  room : String
  /-- Relay server; without one there is no cloud transport. -/
  signalingUrl : Option String
  discoveryPort : UInt16
  transportPort : UInt16
  meshPort : UInt16
  meshBeaconPort : UInt16
  core : Config
  deriving DecidableEq

namespace DaemonConfig

/-- Nothing configured. -/
def standard : DaemonConfig := ⟨.host, "lobby", none, 45680, 45681, 45682, 45683, .standard⟩

/-- Roles by their names in settings. -/
def roleOfName? (name : String) : Option Role :=
  if name = "host" then some .host else if name = "joiner" then some .joiner else none

/-- A role: its name, or its name over an empty group or list. -/
def roleOr (default : Role) : Option Setting → Option Role
  | none => some default
  | some (.text name) => roleOfName? name
  | some (.group [(name, .group [])]) | some (.group [(name, .list [])]) => roleOfName? name
  | some _ => none

/-- Read the settings of a document. -/
def ofSetting (s : Setting) : Option DaemonConfig := do
  let field ← s.fields? .lenient ["role", "room", "signaling_url", "discovery_port",
    "transport_port", "mesh_port", "mesh_beacon_port", "core"]
  let d := standard
  let port (name : String) (default : UInt16) : Option UInt16 :=
    (Setting.naturalOr 65536 default.toNat (field name)).map .ofNat
  pure {
    role := ← roleOr d.role (field "role")
    room := ← Setting.textOr d.room (field "room")
    signalingUrl := ← Setting.optionalText (field "signaling_url")
    discoveryPort := ← port "discovery_port" d.discoveryPort
    transportPort := ← port "transport_port" d.transportPort
    meshPort := ← port "mesh_port" d.meshPort
    meshBeaconPort := ← port "mesh_beacon_port" d.meshBeaconPort
    core := ← Setting.groupOr (Config.ofSetting .lenient) .standard (field "core") }

/-- The configuration that a settings file holds, if it is sound. -/
def ofFile? (content : Bytes) : Option DaemonConfig :=
  match Text.Utf8.decode content with
  | .ok text => (Toml.parse? text).bind ofSetting
  | .error _ => none

/-- A role as the environment names it: blanks around it and the case of letters do not count. -/
def roleOfVariable? (value : String) : Option Role :=
  let name := Text.asciiLower (Text.trim value.toList)
  if name = "host".toList then some .host
  else if name = "joiner".toList || name = "join".toList then some .joiner
  else none

/-- A port in decimal digits, a plus sign allowed in front. -/
def portOfVariable? (value : String) : Option UInt16 :=
  let digits := match value.toList with
    | '+' :: rest => rest
    | cs => cs
  if digits.isEmpty || !digits.all Char.isDigit then none
  else
    let n := digits.foldl (fun n c => n * 10 + (c.toNat - 48)) 0
    if n < 65536 then some (.ofNat n) else none

/-- Let the environment have its say. -/
def withEnvironment (var : String → Option String) (c : DaemonConfig) : DaemonConfig :=
  let port (name : String) (old : UInt16) : UInt16 := ((var name).bind portOfVariable?).getD old
  { c with
    role := ((var "MESHCALL_ROLE").bind roleOfVariable?).getD c.role
    room := match var "MESHCALL_ROOM" with
      | some room => if room.isEmpty then c.room else room
      | none => c.room
    signalingUrl := match var "MESHCALL_SIGNALING_URL" with
      | some url => if url.isEmpty then none else some url
      | none => c.signalingUrl
    discoveryPort := port "MESHCALL_DISCOVERY_PORT" c.discoveryPort
    transportPort := port "MESHCALL_TRANSPORT_PORT" c.transportPort
    meshPort := port "MESHCALL_MESH_PORT" c.meshPort }

/-- The configuration in force, given the settings file's content if there is one. -/
def load (file : Option Bytes) (var : String → Option String) : DaemonConfig :=
  ((file.bind ofFile?).getD standard).withEnvironment var

end DaemonConfig

end PeerCall
