import ViewLoop.Alignment
import ViewLoop.Effect
import ViewLoop.Response

/-!
# Warnings

What the loop puts up with and goes on. A warning is written as the part of the loop that gives
it, and a text.
-/

namespace ViewLoop

inductive Warning where
  | alignment (w : AlignmentWarning)
  /-- The data of an event is not what the handler expects, so the event is lost. -/
  | undecodable (handler : HandlerId) (cause : DecodeError)
  | effectFailed (cause : CommandError)
  | effectDropped
  deriving Repr

def Warning.message : Warning → String
  | alignment w => "mvu.align: " ++ w.message
  | undecodable handler cause =>
    "mvu.runtime: handler " ++ handler.token ++ ": " ++ cause.message
  | effectFailed cause => "mvu.runtime: " ++ cause.message
  | effectDropped => "mvu.runtime: effect dropped: no executor installed"

end ViewLoop
