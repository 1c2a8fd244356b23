import PeerCall.Config.Setting
import PeerCall.Duration
import PeerCall.Packet

/-!
# Tunables

Settings of the mesh relay, of the call handshake and of out-of-band codes, with their defaults.
-/

namespace PeerCall

/-- Settings of the mesh relay. -/
structure MeshConfig where
  /-- The service advertised and looked for on the radio. -/
  serviceId : String
  /-- Relay budget of packets that this node originates. -/
  defaultTtl : UInt8
  /-- How many packet ids are remembered. -/
  seenCapacity : Nat
  /-- How long a packet id is remembered. -/
  seenWindowSecs : Nat
  rescanIntervalSecs : Nat
  sweepIntervalSecs : Nat
  deriving DecidableEq

/-- Settings of the call handshake. -/
structure HandshakeConfig where
  /-- Time between a failure of the media and the host's handover. -/
  watchdogGraceMs : Nat
  /-- Least time between two announcements of a joiner. -/
  rejoinIntervalMs : Nat
  /-- Whether to seal what goes to a peer whose key is known. -/
  encryptSignaling : Bool
  /-- Chat text sent behind an announcement. -/
  readyMessage : Option String
  /-- Whether the host wants a picture. -/
  video : Bool
  deriving DecidableEq

/-- Settings of out-of-band codes. -/
structure CodecConfig where
  /-- Network candidates kept in a code. -/
  maxCandidates : Nat
  deriving DecidableEq

/-- All tunables. -/
structure Config where
  mesh : MeshConfig
  handshake : HandshakeConfig
  codec : CodecConfig
  deriving DecidableEq

namespace MeshConfig

/-- Nothing configured. -/
def standard : MeshConfig := ⟨"meshcall", Packet.defaultTtl, 4096, 600, 10, 30⟩

def seenWindow (c : MeshConfig) : Duration := .ofSecs c.seenWindowSecs

/-- A second at least. -/
def rescanInterval (c : MeshConfig) : Duration := .ofSecs (max c.rescanIntervalSecs 1)

/-- A second at least. -/
def sweepInterval (c : MeshConfig) : Duration := .ofSecs (max c.sweepIntervalSecs 1)

/-- Read the group of mesh settings. -/
def ofSetting (rule : Setting.ListRule) (s : Setting) : Option MeshConfig := do
  let field ← s.fields? rule ["service_id", "default_ttl", "seen_capacity", "seen_window_secs",
    "rescan_interval_secs", "sweep_interval_secs"]
  let d := standard
  let word := Setting.naturalOr (Bytes.bound 8)
  pure {
    serviceId := ← Setting.textOr d.serviceId (field "service_id")
    defaultTtl := .ofNat (← Setting.naturalOr 256 d.defaultTtl.toNat (field "default_ttl"))
    seenCapacity := ← word d.seenCapacity (field "seen_capacity")
    seenWindowSecs := ← word d.seenWindowSecs (field "seen_window_secs")
    rescanIntervalSecs := ← word d.rescanIntervalSecs (field "rescan_interval_secs")
    sweepIntervalSecs := ← word d.sweepIntervalSecs (field "sweep_interval_secs") }

end MeshConfig

namespace HandshakeConfig

/-- Nothing configured. -/
def standard : HandshakeConfig := ⟨5000, 1000, false, none, true⟩

def watchdogGrace (c : HandshakeConfig) : Duration := .ofMillis c.watchdogGraceMs

def rejoinInterval (c : HandshakeConfig) : Duration := .ofMillis c.rejoinIntervalMs

/-- Read the group of handshake settings. -/
def ofSetting (rule : Setting.ListRule) (s : Setting) : Option HandshakeConfig := do
  let field ← s.fields? rule ["watchdog_grace_ms", "rejoin_interval_ms", "encrypt_signaling",
    "ready_message", "video"]
  let d := standard
  let word := Setting.naturalOr (Bytes.bound 8)
  pure {
    watchdogGraceMs := ← word d.watchdogGraceMs (field "watchdog_grace_ms")
    rejoinIntervalMs := ← word d.rejoinIntervalMs (field "rejoin_interval_ms")
    encryptSignaling := ← Setting.flagOr d.encryptSignaling (field "encrypt_signaling")
    readyMessage := ← Setting.optionalText (field "ready_message")
    video := ← Setting.flagOr d.video (field "video") }

end HandshakeConfig

namespace CodecConfig

/-- Nothing configured. -/
def standard : CodecConfig := ⟨3⟩

/-- Read the group of code settings. -/
def ofSetting (rule : Setting.ListRule) (s : Setting) : Option CodecConfig := do
  let field ← s.fields? rule ["max_candidates"]
  pure ⟨← Setting.naturalOr (Bytes.bound 8) standard.maxCandidates (field "max_candidates")⟩

end CodecConfig

namespace Config

/-- Nothing configured. -/
def standard : Config := ⟨.standard, .standard, .standard⟩

/-- Read all tunables. -/
def ofSetting (rule : Setting.ListRule) (s : Setting) : Option Config := do
  let field ← s.fields? rule ["mesh", "handshake", "codec"]
  pure {
    mesh := ← Setting.groupOr (MeshConfig.ofSetting rule) .standard (field "mesh")
    handshake := ← Setting.groupOr (HandshakeConfig.ofSetting rule) .standard (field "handshake")
    codec := ← Setting.groupOr (CodecConfig.ofSetting rule) .standard (field "codec") }

/-- Read all tunables from a JSON text. -/
def ofJson (text : String) : Option Config := do
  ofSetting .exact (← Setting.ofJson (← Json.parse? text))

end Config

end PeerCall
