import PeerCall.Channel.Bundle
import PeerCall.Cloud
import PeerCall.Code.Buffer
import PeerCall.Config.Daemon
import PeerCall.Handshake.Call
import PeerCall.Lan.Channel
import PeerCall.Lan.Presence
import PeerCall.Main
import PeerCall.Mesh.Neighborhood
import PeerCall.Mesh.Network
import PeerCall.Mesh.Relay
import PeerCall.Proofs.Binary.Guard
import PeerCall.Proofs.Binary.Messages
import PeerCall.Proofs.Binary.Streams
import PeerCall.Proofs.Channel.Converging
import PeerCall.Proofs.Channel.Merging
import PeerCall.Proofs.Channel.Switching
import PeerCall.Proofs.Code.Buffers
import PeerCall.Proofs.Code.Passes
import PeerCall.Proofs.Delays
import PeerCall.Proofs.Handshake.Established
import PeerCall.Proofs.Handshake.HangUp
import PeerCall.Proofs.Handshake.Intervals
import PeerCall.Proofs.Handshake.Negotiation
import PeerCall.Proofs.Handshake.Resuming
import PeerCall.Proofs.Handshake.Rooms
import PeerCall.Proofs.Handshake.Watchdog
import PeerCall.Proofs.Json.Fields
import PeerCall.Proofs.Json.Forms
import PeerCall.Proofs.Lan.Delivery
import PeerCall.Proofs.Lan.Hellos
import PeerCall.Proofs.Lan.Sizes
import PeerCall.Proofs.Media.Codes
import PeerCall.Proofs.Media.Pairing
import PeerCall.Proofs.Mesh.Connections
import PeerCall.Proofs.Mesh.Endings
import PeerCall.Proofs.Mesh.Forgetting
import PeerCall.Proofs.Mesh.Isolation
import PeerCall.Proofs.Mesh.Linking
import PeerCall.Proofs.Mesh.Neighbors
import PeerCall.Proofs.Mesh.PlainMemory
import PeerCall.Proofs.Mesh.Reach
import PeerCall.Proofs.Rehearsal.Rebinding
import PeerCall.Proofs.Rehearsal.Rendezvous
import PeerCall.Proofs.Sdp.Needed
import PeerCall.Rehearsal.Bundle
import PeerCall.Rehearsal.Duet
import PeerCall.Rehearsal.Offline
import PeerCall.Rehearsal.Pair
import PeerCall.Rehearsal.Radio
import PeerCall.Rehearsal.Scripted
