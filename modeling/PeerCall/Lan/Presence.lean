import PeerCall.Identity
import PeerCall.Frame
import PeerCall.Net.Address

/-!
# Presences

How devices of a local network find each other. A device announces its presence in beacons to a
group address; whoever is in the same room reports it as sighted, and answers with its own presence,
so that the newcomer need not wait for the next beacon of everybody else.
-/

namespace PeerCall.Lan

open Binary

/-- Where and how a device can be reached. -/
structure Presence where
  version : UInt8
  room : String
  device : DeviceId
  publicKey : PublicKey
  /-- The port that takes links. -/
  port : UInt16
  deriving DecidableEq

/-- What goes over the group address. -/
inductive Announcement
  | beacon (presence : Presence)
  /-- The answer to a beacon. -/
  | response (presence : Presence)
  deriving DecidableEq

/-- The binary form of a presence. -/
def Presence.format : Format Presence :=
  (Format.u8.pair (Format.text.pair ((Format.plainOctets 16).pair
    (publicKeyFormat.pair .u16)))).imap
    (fun (version, room, device, publicKey, port) => ⟨version, room, device, publicKey, port⟩)
    (fun p => (p.version, p.room, p.device, p.publicKey, p.port))

namespace Announcement

/-- How many alternatives an announcement has. -/
def count : Nat := 2

def presence : Announcement → Presence
  | .beacon p | .response p => p

/-- An announcement as its index and its presence. -/
def encode : Announcement → Bytes
  | .beacon p => Format.index.encode 0 ++ Presence.format.encode p
  | .response p => Format.index.encode 1 ++ Presence.format.encode p

/-- Read the index, then the presence. -/
def decode (bs : Bytes) : Except Fault (Announcement × Bytes) := do
  let (i, rest) ← Format.index.decode bs
  match i with
  | 0 => Presence.format.decodeAs .beacon rest
  | 1 => Presence.format.decodeAs .response rest
  | i => throw (.variant i count)

/-- The binary form of an announcement. -/
def format : Format Announcement := ⟨encode, decode⟩

end Announcement

/-- A device that was heard, with the address that takes links to it. -/
structure Sighting where
  device : DeviceId
  endpoint : Net.Endpoint
  deriving DecidableEq

namespace Presence

/-- Whether a presence is worth a link: one of our protocol, in our room, and not our own. -/
def accepts (own peer : Presence) : Bool :=
  peer.version = protocolVersion && peer.device ≠ own.device && peer.room = own.room

/-- A datagram arrives on the group address: the device that it makes known, and whether it asks
for a response to its sender. -/
def hear (own : Presence) (sender : Net.Endpoint) (datagram : Bytes) : Option (Sighting × Bool) :=
  match Frame.decode Announcement.format datagram with
  | .error _ => none
  | .ok (announcement, _) =>
    let peer := announcement.presence
    if own.accepts peer then
      some (⟨peer.device, ⟨sender.address, 0, peer.port⟩⟩, announcement = .beacon peer)
    else none

/-- The datagram that answers a beacon. -/
def answer (own : Presence) : Except Frame.EncodeError Bytes :=
  Frame.encode Announcement.format (.response own)

end Presence

end PeerCall.Lan
