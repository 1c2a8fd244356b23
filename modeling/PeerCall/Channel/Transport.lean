/-!
# Transports

The ways that signaling can take, best first, and the video bitrate that each is good for.
-/

namespace PeerCall

/-- Ways for signaling, best first. -/
inductive Transport
  | lan
  | wifiDirect
  | ble
  | cloud
  deriving DecidableEq, Repr

namespace Transport

/-- Place in the order of preference, from zero. -/
def rank : Transport → Nat
  | .lan => 0
  | .wifiDirect => 1
  | .ble => 2
  | .cloud => 3

/-- The name of a way. -/
def text : Transport → String
  | .lan => "lan"
  | .wifiDirect => "wifi-direct"
  | .ble => "ble"
  | .cloud => "cloud"

/-- The video bitrate to aim for, in kilobits per second. -/
def bitrateHint : Transport → Nat
  | .lan => 5000
  | .wifiDirect => 4000
  | .ble => 200
  | .cloud => 1500

/-- Best first; equals keep their order. -/
def sort (ts : List Transport) : List Transport := ts.mergeSort fun a b => a.rank ≤ b.rank

end Transport

end PeerCall
