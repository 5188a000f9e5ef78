import ViewLoop.Command
import ViewLoop.Document
import ViewLoop.Effect
import ViewLoop.Response
import ViewLoop.Url.Basic

/-!
# Programs

An application: a model, messages that change it, and a view that shows it. All of it is pure; the
loop keeps the model, shows what the view returns, and does what the commands ask for.
-/

namespace ViewLoop

/-- An application with models `Model`, messages `M` and effects `E`. Its handlers use the decoders
`D`, and its executor has the state `X`. -/
structure Program (Flags Model M D E X : Type) where
  /-- The first model and what to do first, for given flags at an address. -/
  init : Flags → Url → Model × Command E
  update : M → Model → Model × Command E
  view : Model → Document (Response D M)
  urlChanged : Url → M
  effectFailed : CommandError → M
  execute : Option (Executor E M X)

end ViewLoop
