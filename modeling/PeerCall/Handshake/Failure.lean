import PeerCall.Identity
import PeerCall.Media

/-!
# Failures of a call

Why a step of the call setup failed, and the text that the application is shown: what was being
done, then the chain of causes.
-/

namespace PeerCall.Handshake

/-- What was asked of the media engine when it failed. -/
inductive Activity
  | settingUp
  | settingUpForOffer
  | settingUpForMode
  | creatingOffer
  | creatingAnswer
  | applyingOffer
  | applyingAnswer
  | addingCandidate
  | restartingIce
  deriving DecidableEq, Repr

/-- The wording of an activity. -/
def Activity.text : Activity → String
  | .settingUp => "initializing media"
  | .settingUpForOffer => "initializing media for offer"
  | .settingUpForMode => "re-initializing media for selected mode"
  | .creatingOffer => "creating offer"
  | .creatingAnswer => "creating answer"
  | .applyingOffer => "applying remote offer"
  | .applyingAnswer => "applying remote answer"
  | .addingCandidate => "adding remote ICE candidate"
  | .restartingIce => "restarting ICE"

/-- Why a step failed. -/
inductive Failure
  /-- A call to the media engine failed. -/
  | media (during : Activity) (cause : MediaError)
  /-- The media engine reported on its own that it failed. -/
  | engine
  | opening (sender : String) (cause : EnvelopeError)
  /-- An envelope held another one. -/
  | nested (sender : String)
  | sealing (cause : EnvelopeError)
  deriving DecidableEq, Repr

/-- An error and the errors behind it. -/
def chain (e : EnvelopeError) : String :=
  match e.source? with
  | some source => s!"{e.message}: {source}"
  | none => e.message

/-- The text of a failure. -/
def Failure.message : Failure → String
  | .media during cause => s!"{during.text}: {cause.message}"
  | .engine => "media engine reported failure"
  | .opening sender cause => s!"opening envelope from {sender}: {chain cause}"
  | .nested sender => s!"nested envelope from {sender}"
  | .sealing cause => s!"sealing signaling message: {chain cause}"

end PeerCall.Handshake
