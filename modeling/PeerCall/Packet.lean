import PeerCall.Frame

/-!
# Mesh packets

The unit of flooding. A packet is identified by sixteen bytes that every copy shares, and each hop
moves one unit from its relay budget to its hop count, so the sum of the two stays what its
originator gave it.
-/

namespace PeerCall

open Binary

/-- A packet's identifier. -/
abbrev PacketId := Octets 16

/-- The identifier with a number, for packets made one after another. -/
def PacketId.numbered (k : Nat) : PacketId :=
  .ofNatBE 16 (0x6d657368_63616c6c_4000_8000_000000000000 + k)

/-- The number of an identifier among the first so many. -/
def PacketId.number? (count : Nat) (id : PacketId) : Option Nat :=
  (List.range count).find? fun k => numbered k = id

/-- Kinds of packets; only signaling ones reach the application. -/
inductive PacketKind
  | signaling
  | data
  | hello
  | ack
  deriving DecidableEq, Repr

/-- A packet on its way through the mesh. -/
structure Packet where
  id : PacketId
  sender : String
  target : String
  kind : PacketKind
  payload : Bytes
  /-- Hops made so far. -/
  hop : UInt8
  /-- Hops that it may still make. -/
  ttl : UInt8
  /-- Milliseconds since the epoch at the originator. -/
  timestamp : UInt64
  deriving DecidableEq

namespace Packet

/-- The target that stands for every node. -/
def everyone : String := "BROADCAST"

/-- The relay budget of a fresh packet where nothing else is configured. -/
def defaultTtl : UInt8 := 5

/-- A fresh packet for every node. -/
def broadcast (id : PacketId) (timestamp : UInt64) (sender : String) (kind : PacketKind)
    (payload : Bytes) (ttl : UInt8) : Packet :=
  ⟨id, sender, everyone, kind, payload, 0, ttl, timestamp⟩

/-- Whether every node is meant. -/
def isBroadcast (p : Packet) : Bool := p.target = everyone

/-- The copy for the next hop, or none once the budget is spent. The hop count stops at 255. -/
def relayed (p : Packet) : Option Packet :=
  if p.ttl = 0 then none
  else some { p with ttl := p.ttl - 1, hop := if p.hop = 255 then 255 else p.hop + 1 }

theorem ttl_of_relayed {p q : Packet} (h : p.relayed = some q) : q.ttl.toNat + 1 = p.ttl.toNat := by
  unfold relayed at h
  split at h
  · cases h
  · rename_i hne
    cases h
    have : p.ttl.toNat ≠ 0 := fun h0 => hne (UInt8.toNat_inj.1 (by simpa using h0))
    simp only [UInt8.toNat_sub, UInt8.toNat_one]
    have := p.ttl.toNat_lt
    omega

/-- All the copies that successive hops make. -/
def relayChain (p : Packet) : List Packet :=
  match _h : p.relayed with
  | none => []
  | some q => q :: relayChain q
termination_by p.ttl.toNat
decreasing_by
  have := ttl_of_relayed _h
  omega

/-- The binary form of a packet. -/
def format : Format Packet :=
  ((Format.octets 16 .endsInText).pair (Format.text.pair (Format.text.pair
    ((Format.choice [.signaling, .data, .hello, .ack]).pair (Format.bytes.pair
      (Format.u8.pair (Format.u8.pair Format.u64))))))).imap
    (fun (id, sender, target, kind, payload, hop, ttl, timestamp) =>
      ⟨id, sender, target, kind, payload, hop, ttl, timestamp⟩)
    (fun p => (p.id, p.sender, p.target, p.kind, p.payload, p.hop, p.ttl, p.timestamp))

/-- A packet as it goes over the radio. -/
def toDatagram (p : Packet) : Except Frame.EncodeError Bytes := Frame.encode format p

/-- The packet that a whole datagram holds. -/
def ofDatagram (bs : Bytes) : Except Frame.DecodeError Packet := Frame.decodeWhole format bs

end Packet

end PeerCall
