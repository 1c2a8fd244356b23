import PeerCall.Channel.State
import PeerCall.Message

/-!
# Media engines

What a call needs of the engine that captures, encodes and transports its media: the states it
reports, the two sides of the offer and answer exchange, the calls to it and their errors. An engine
is a record of functions on a state of its own, so a theorem may speak of all engines or of one.
-/

namespace PeerCall

/-- Connection states that a media engine reports. -/
inductive EngineState
  | idle
  /-- Set up, nothing negotiated yet. -/
  | ready
  | connecting
  | connected
  | failed
  | closed
  deriving DecidableEq, Repr

/-- Sides of the exchange that a description can belong to. -/
inductive SdpKind
  | offer
  | answer
  deriving DecidableEq, Repr

/-- The name of a side. -/
def SdpKind.text : SdpKind → String
  | .offer => "offer"
  | .answer => "answer"

/-- Why a call to a media engine failed. -/
inductive MediaError
  | hardware (cause : String)
  | negotiation (cause : String)
  | noSession
  | closed
  deriving DecidableEq, Repr

/-- The wording of an error. -/
def MediaError.message : MediaError → String
  | .hardware cause => s!"media hardware unavailable: {cause}"
  | .negotiation cause => s!"negotiation failed: {cause}"
  | .noSession => "no media session"
  | .closed => "media engine closed"

/-- Calls to a media engine. -/
inductive EngineCall
  /-- Acquire the devices and create a session, also to switch modes. -/
  | setUp (video : Bool)
  | createOffer
  | createAnswer
  /-- Take the other side's description. -/
  | setRemote (kind : SdpKind) (sdp : String)
  /-- Take one of the other side's network paths. -/
  | addIce (candidate : IceCandidate)
  | close
  /-- An offer with fresh credentials on the session there is. -/
  | restartIce
  deriving DecidableEq

/-- A media engine with states `σ`. A call that fails may still have changed the state. -/
structure MediaEngine (σ : Type) where
  setUp : Bool → σ → Except MediaError Unit × σ
  createOffer : σ → Except MediaError String × σ
  createAnswer : σ → Except MediaError String × σ
  setRemote : SdpKind → String → σ → Except MediaError Unit × σ
  addIce : IceCandidate → σ → Except MediaError Unit × σ
  /-- Absent where an ordinary offer restarts the negotiation. -/
  restartIce? : Option (σ → Except MediaError String × σ)
  close : σ → σ
  /-- The state that it reports. -/
  report : σ → Watched EngineState
  hasSession : σ → Bool
  /-- All network paths of its own that it has reported so far. -/
  gathered : σ → List IceCandidate
  /-- How many of them it keeps for a slow reader. -/
  gatheredCapacity : Nat

end PeerCall
