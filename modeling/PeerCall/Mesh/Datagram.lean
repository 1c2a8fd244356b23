import PeerCall.Frame
import PeerCall.Net.Address

/-!
# Datagrams of the stand-in radio

Where there is no short-range radio, datagrams of the local network stand in for it. A node adverts
its service to a group address and so makes the port of its data socket known; on data sockets
neighbours subscribe to a node's notifications, write to it and are notified.
-/

namespace PeerCall.Mesh

open Binary

/-- What a node adverts. -/
structure Advert where
  service : String
  node : String
  /-- The port of the node's data socket. -/
  port : UInt16
  deriving DecidableEq

/-- What goes between data sockets. -/
inductive Datagram
  /-- The sender wants to be notified. -/
  | subscribe
  | write (bytes : Bytes)
  | notify (bytes : Bytes)
  deriving DecidableEq

namespace Advert

/-- The binary form of an advert. -/
def format : Format Advert :=
  (Format.text.pair (Format.text.pair .u16)).imap
    (fun (service, node, port) => ⟨service, node, port⟩) (fun a => (a.service, a.node, a.port))

/-- The advert in a datagram from the group address, and the data socket it makes known. A node's
own advert counts for nothing. -/
def hear? (node : String) (sender : Net.Endpoint) (datagram : Bytes) :
    Option (Advert × Net.Endpoint) :=
  match Frame.decode format datagram with
  | .error _ => none
  | .ok (advert, _) =>
    if advert.node = node then none else some (advert, ⟨sender.address, 0, advert.port⟩)

end Advert

namespace Datagram

/-- How many alternatives a datagram has. -/
def count : Nat := 3

/-- The bytes that a datagram carries. -/
def payload : Datagram → Bytes
  | .subscribe => []
  | .write bytes | .notify bytes => bytes

/-- A datagram as its index and its contents. -/
def encode : Datagram → Bytes
  | .subscribe => Format.index.encode 0
  | .write bytes => Format.index.encode 1 ++ Format.bytes.encode bytes
  | .notify bytes => Format.index.encode 2 ++ Format.bytes.encode bytes

/-- Read the index, then the contents. -/
def decode (bs : Bytes) : Except Fault (Datagram × Bytes) := do
  let (i, rest) ← Format.index.decode bs
  match i with
  | 0 => pure (.subscribe, rest)
  | 1 => Format.bytes.decodeAs .write rest
  | 2 => Format.bytes.decodeAs .notify rest
  | i => throw (.variant i count)

/-- The binary form of a datagram. -/
def format : Format Datagram := ⟨encode, decode⟩

end Datagram

end PeerCall.Mesh
