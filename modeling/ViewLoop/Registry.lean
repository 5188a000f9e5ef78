import ViewLoop.Response

/-!
# The handler table

The handlers that events can reach, by identity. A handler enters when its element is shown and
leaves when its element goes; an event for a handler that has left finds nothing.

The view of a table is `Registry.get?`. No identity occurs twice in a table that was built by its
operations.
-/

namespace ViewLoop

/-- The handlers that events can reach. -/
structure Registry (P : Type) where
  handlers : List (Handler P) := []
  deriving Repr

/-- Another handler is registered under the identity of the one to be registered. -/
structure DuplicateHandler where
  id : HandlerId
  event : String
  deriving DecidableEq, Repr

def DuplicateHandler.message (e : DuplicateHandler) : String :=
  "handler " ++ e.id.token ++ " registered twice with different payloads (event `" ++ e.event
    ++ "`)"

namespace Registry

variable {P : Type}

def empty : Registry P := {}

def get? (r : Registry P) (id : HandlerId) : Option (Handler P) :=
  r.handlers.find? fun h => h.id = id

def size (r : Registry P) : Nat := r.handlers.length

def unregister (r : Registry P) (id : HandlerId) : Registry P :=
  { handlers := r.handlers.filter fun h => h.id ≠ id }

/-- The table with a handler in the place of the one under its identity. -/
def replace (r : Registry P) (h : Handler P) : Registry P :=
  { handlers := (r.unregister h.id).handlers ++ [h] }

/-- The table with one more handler. Registering an equal handler again changes nothing. -/
def register [DecidableEq P] (r : Registry P) (h : Handler P) :
    Except DuplicateHandler (Registry P) :=
  match r.get? h.id with
  | none => .ok (r.replace h)
  | some other => if other = h then .ok r else .error ⟨h.id, h.event⟩

/-- Registers handlers in order, up to the first that is refused. -/
def registerAll [DecidableEq P] (r : Registry P) :
    List (Handler P) → Registry P × Except DuplicateHandler Unit
  | [] => (r, .ok ())
  | h :: rest =>
    match r.register h with
    | .ok r => r.registerAll rest
    | .error e => (r, .error e)

/-- Registers every handler of a tree, in pre-order, up to the first that is refused. -/
def registerTree [DecidableEq P] (r : Registry P) (n : Node P) :
    Registry P × Except DuplicateHandler Unit :=
  r.registerAll (n.handlers.map Prod.snd)

/-- Takes every handler of a tree out of the table, by identity. -/
def unregisterTree (r : Registry P) (n : Node P) : Registry P :=
  (n.handlers.map Prod.snd).foldl (fun r h => r.unregister h.id) r

theorem get?_filter (r : Registry P) (keep : HandlerId → Bool) (id : HandlerId) :
    ({ handlers := r.handlers.filter fun h => keep h.id } : Registry P).get? id
      = if keep id then r.get? id else none := by
  simp only [get?, List.find?_filter]
  split
  · rename_i h
    congr 1
    funext x
    by_cases e : x.id = id <;> simp [e, h]
  · rename_i h
    refine List.find?_eq_none.mpr fun x _ => ?_
    by_cases e : x.id = id <;> simp [e, h]

theorem get?_unregister (r : Registry P) (id other : HandlerId) :
    (r.unregister id).get? other = if other = id then none else r.get? other := by
  rw [unregister, get?_filter r fun i => i ≠ id]
  by_cases h : other = id <;> simp [h]

theorem get?_replace (r : Registry P) (h : Handler P) (other : HandlerId) :
    (r.replace h).get? other = if other = h.id then some h else r.get? other := by
  have hu := get?_unregister r h.id other
  simp only [get?] at hu ⊢
  simp only [replace, List.find?_append, hu]
  by_cases e : other = h.id
  · simp [e]
  · simp only [e, ↓reduceIte]
    have : ¬ h.id = other := fun k => e k.symm
    simp [this]

end Registry

/-! ### Events -/

inductive Dispatch (M : Type) where
  | message (m : M)
  | unknownHandler
  | decodeFailed (cause : DecodeError)
  deriving Repr

def Registry.dispatch {D M : Type} [Decodes D M] (r : Registry (Response D M)) (id : HandlerId)
    (data : Option Value) : Dispatch M :=
  match r.get? id with
  | none => .unknownHandler
  | some h =>
    match h.payload.resolve data with
    | .ok m => .message m
    | .error cause => .decodeFailed cause

end ViewLoop
