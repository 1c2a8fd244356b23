/-!
# Roles

A call has a host, which chooses the media and offers, and a joiner, which answers.
-/

namespace PeerCall

/-- Sides of a call: the host makes the offer. -/
inductive Role
  | host
  | joiner
  deriving DecidableEq, Repr

end PeerCall
