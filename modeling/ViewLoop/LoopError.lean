import ViewLoop.Registry
import ViewLoop.Surface.Error

/-!
# Failures of the loop

Why the loop cannot go on: the program, the surface and the handler table have come apart, or the
loop is used in a way that it does not allow.
-/

namespace ViewLoop

inductive LoopError where
  | surface (cause : SurfaceError)
  | duplicateHandler (cause : DuplicateHandler)
  | notStarted
  | alreadyStarted
  /-- As many messages were processed as one run may take, and there are more. -/
  | messageLimit (limit : Nat)
  deriving DecidableEq, Repr

def LoopError.message : LoopError → String
  | surface cause => "surface rejected an operation: " ++ cause.message
  | duplicateHandler cause => cause.message
  | notStarted => "runtime has not been started"
  | alreadyStarted => "runtime was already started"
  | messageLimit limit =>
    "gave up after " ++ toString limit ++ " messages without reaching quiescence"

end ViewLoop
