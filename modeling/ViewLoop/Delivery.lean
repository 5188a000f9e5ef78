import ViewLoop.Mailbox
import ViewLoop.Registry
import ViewLoop.Warning

/-!
# Delivery of events

How an event that a host reports becomes a message in the mailbox: the handler is looked up, the
data of the event is decoded, and the message is sent. An event that fails on the way leaves the
mailbox as it was.
-/

namespace ViewLoop

/-- What becomes of an event that a host reports. -/
inductive Delivery where
  | enqueued
  | unknownHandler
  | undecodable (cause : DecodeError)
  | closed
  deriving Repr

namespace Delivery

def isEnqueued : Delivery → Bool
  | enqueued => true
  | _ => false

def warnings (handler : HandlerId) : Delivery → List Warning
  | undecodable cause => [.undecodable handler cause]
  | _ => []

end Delivery

/-- Reports an event for a handler of the table, with or without data. -/
def Mailbox.deliver {D M : Type} [Decodes D M] (b : Mailbox M) (table : Registry (Response D M))
    (handler : HandlerId) (data : Option Value) : Delivery × Mailbox M :=
  match table.dispatch handler data with
  | .unknownHandler => (.unknownHandler, b)
  | .decodeFailed cause => (.undecodable cause, b)
  | .message m =>
    match b.send? m with
    | some sent => (.enqueued, sent)
    | none => (.closed, b)

theorem Mailbox.isOpen_deliver {D M : Type} [Decodes D M] (b : Mailbox M)
    (table : Registry (Response D M)) (id : HandlerId) (data : Option Value) :
    (b.deliver table id data).2.isOpen = b.isOpen := by
  rw [deliver]
  cases table.dispatch id data with
  | unknownHandler => rfl
  | decodeFailed cause => rfl
  | message m =>
    dsimp only
    by_cases hopen : b.isOpen = true
    · rw [send?, if_pos hopen]
      rfl
    · rw [send?, if_neg hopen]

theorem Mailbox.deliver_of_get?_none {D M : Type} [Decodes D M] {b : Mailbox M}
    {table : Registry (Response D M)} {handler : HandlerId} (h : table.get? handler = none)
    (data : Option Value) : b.deliver table handler data = (.unknownHandler, b) := by
  simp only [deliver, Registry.dispatch, h]

end ViewLoop
