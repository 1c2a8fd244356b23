/-!
# Stages of a call

How far the setup of a call has come.
-/

namespace PeerCall.Handshake

/-- Progress of the call setup, in order, and behind it the two side paths. -/
inductive Stage
  | idle
  | initializingHardware
  | startingDiscovery
  | peerFound
  | exchangingOffer
  | exchangingAnswer
  | gatheringCandidates
  | waitingForVideo
  | linkEstablished
  | reconnecting
  | failed
  deriving DecidableEq, Repr

namespace Stage

/-- Whether no description has been exchanged yet. -/
def isPreNegotiation : Stage → Bool
  | .idle | .initializingHardware | .startingDiscovery | .peerFound => true
  | _ => false

/-- Whether descriptions are being exchanged. -/
def isNegotiating : Stage → Bool
  | .exchangingOffer | .exchangingAnswer | .gatheringCandidates | .waitingForVideo => true
  | _ => false

end Stage

end PeerCall.Handshake
