import ToneGraph.Rejection
/-!
# What can go wrong while playing

Faults of the output and of the line to it, and what a request to play can fail with.
-/

namespace ToneGraph

/-- A fault of the audio side. Those of a device hold what the device said. -/
inductive AudioError where
  | noOutputDevice
  | deviceConfig (reason : String)
  | streamBuild (reason : String)
  | streamPlay (reason : String)
  | queueFull
  | alreadyOpen
  deriving DecidableEq, Repr

/-- The fault in words. -/
def AudioError.message : AudioError → String
  | noOutputDevice => "no audio output device found"
  | deviceConfig reason => "device config error: " ++ reason
  | streamBuild reason => "stream build error: " ++ reason
  | streamPlay reason => "stream play error: " ++ reason
  | queueFull => "render command queue is full"
  | alreadyOpen => "sink is already open"

/-- Why a source is not played. -/
inductive RunError where
  | rejected (why : Rejection)
  | audio (why : AudioError)
  deriving DecidableEq, Repr

/-- The reason in words. -/
def RunError.message : RunError → String
  | rejected why => why.describe
  | audio why => why.message

end ToneGraph
