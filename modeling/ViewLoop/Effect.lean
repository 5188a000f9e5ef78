/-!
# Effects

How the effects of a program are run. An executor gets an effect together with a context through
which messages can be sent; the effect counts as in flight until its context is given up. What
one run of an effect does to the world of the loop is an `Execution`.
-/

namespace ViewLoop

inductive CommandError where
  | failed (reason : String)
  | panicked (reason : String)
  | disconnected
  deriving DecidableEq, Repr

def CommandError.message : CommandError → String
  | failed reason => "command failed: " ++ reason
  | panicked reason => "command panicked: " ++ reason
  | disconnected => "mailbox closed before the command could report back"

/-- What breaking off is reported as when it comes without a text. -/
def CommandError.unspoken : CommandError := .panicked "non-string panic payload"

/-- One run of an effect, by an executor with state `X`. -/
structure Execution (M X : Type) where
  state : X
  sent : List M := []
  /-- Work that goes on in the background, each with the messages that it sends before it gives
  up its context. -/
  started : List (List M) := []
  retained : Bool := false
  released : Nat := 0
  failure : Option CommandError := none

abbrev Executor (E M X : Type) := E → X → Execution M X

end ViewLoop
