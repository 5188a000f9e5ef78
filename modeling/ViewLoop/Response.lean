import ViewLoop.Node
import ViewLoop.Value

/-!
# Responses

What a handler does when its event fires: it hands over a fixed message, or it decodes the data
that the event carries. Decoders are named by the values of a type `D`; the class `Decodes` gives
each name its meaning, so two decoders are equal iff their names are.
-/

namespace ViewLoop

/-- A type of decoder names: each expects data of one shape and turns it into a message. -/
class Decodes (D M : Type) where
  shape : D → String
  decode : D → Value → Except Value.Mismatch M

inductive Response (D M : Type) where
  /-- Hands over a message and ignores the data of the event. -/
  | message (m : M)
  | decode (d : D)
  deriving DecidableEq, Repr

inductive DecodeError where
  | missingPayload (wanted : String)
  | shape (wanted : String) (cause : Value.Mismatch)
  deriving Repr, Inhabited

def DecodeError.message : DecodeError → String
  | missingPayload wanted =>
    "handler expects a `" ++ wanted ++ "` payload but the event carried none"
  | shape wanted cause => "event payload does not match `" ++ wanted ++ "`: " ++ cause.message

/-- The message for one firing of a handler. -/
def Response.resolve {D M : Type} [Decodes D M] :
    Response D M → Option Value → Except DecodeError M
  | message m, _ => .ok m
  | decode d, none => .error (.missingPayload (Decodes.shape (M := M) d))
  | decode d, some v =>
    match Decodes.decode d v with
    | .ok m => .ok m
    | .error cause => .error (.shape (Decodes.shape (M := M) d) cause)

theorem Response.resolve_message {D M : Type} [Decodes D M] (m : M) (data : Option Value) :
    (Response.message m : Response D M).resolve data = .ok m := rfl

/-- Decoders that name nothing, for programs whose handlers only hand over messages. -/
instance {M : Type} : Decodes Empty M where
  shape := nofun
  decode := nofun

end ViewLoop
