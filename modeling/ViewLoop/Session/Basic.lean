import ViewLoop.Delivery
import ViewLoop.Difference
import ViewLoop.Program
import ViewLoop.Scene
import ViewLoop.Settings

/-!
# Sessions

A running program: its settings, the scene it is shown on, its mailbox, the supply of identities,
the state of its executor, and, once it was started, the model and the document that are live.

Operations are `Session.Action`s: they change the session step by step and may stop with a
`LoopError`. What was done before a failure stays done.
-/

namespace ViewLoop

/-- What of a program is live: its model, and the document shown for it after alignment. -/
structure Live (Model P : Type) where
  model : Model
  title : String
  head : List HeadEntry
  body : Node P

structure Session (Model M D X : Type) where
  settings : Settings
  scene : Scene (Response D M)
  mailbox : Mailbox M := {}
  supply : IdSupply := {}
  executor : X
  live : Option (Live Model (Response D M)) := none
  processed : Nat := 0
  warnings : List Warning := []
  /-- The kinds of the patches applied, in order, if they are noted. -/
  trace : List String := []

namespace Session

variable {Model M D X : Type}

/-- A session that was not started, on an empty surface. -/
def fresh (settings : Settings) (start : Url) (executor : X) : Session Model M D X :=
  { settings, executor, scene := { surface := Surface.fresh start } }

abbrev Action (Model M D X α : Type) := EStateM LoopError (Session Model M D X) α

def onScene {α : Type} (edit : Scene.Edit (Response D M) α) : Action Model M D X α := fun s =>
  match edit.run s.scene with
  | .ok a scene => .ok a { s with scene }
  | .error cause scene => .error cause { s with scene }

theorem run_onScene_eq {α : Type} (edit : Scene.Edit (Response D M) α) (s : Session Model M D X) :
    (onScene edit).run s = match edit.run s.scene with
      | .ok a scene => .ok a { s with scene }
      | .error cause scene => .error cause { s with scene } := rfl

def onSurface {α : Type} (edit : Surface.Edit α) : Action Model M D X α :=
  onScene (Scene.onSurface edit)

def warn (warnings : List Warning) : Action Model M D X Unit :=
  modify fun s => { s with warnings := s.warnings ++ warnings }

def post (m : M) : Action Model M D X Unit :=
  modify fun s => { s with mailbox := s.mailbox.post m }

/-- Reports an event for a handler. -/
def deliver [Decodes D M] (handler : HandlerId) (data : Option Value) (s : Session Model M D X) :
    Delivery × Session Model M D X :=
  let r := s.mailbox.deliver s.scene.table handler data
  (r.1, { s with mailbox := r.2, warnings := s.warnings ++ r.1.warnings handler })

/-- Ends a session: what waits is lost, and nothing can be sent any more. -/
def close (s : Session Model M D X) : Session Model M D X :=
  { s with mailbox := s.mailbox.close }

end Session

end ViewLoop
