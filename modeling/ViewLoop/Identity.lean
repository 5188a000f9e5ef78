/-!
# Identities

What tells nodes, event handlers and surface states apart. A view leaves a node without an
identity or gives it a key of its own; all other identities are numbers drawn from one
`IdSupply`, which is never reset, so a number drawn for a new node differs from every number
drawn before it.
-/

namespace ViewLoop

/-! ### Nodes -/

/-- Identity of a node: two nodes are the same logical node iff their identities are equal. -/
inductive NodeId where
  | unassigned
  | generated (n : Nat)
  | keyed (key : String)
  deriving DecidableEq, Repr, Inhabited

namespace NodeId

def isKeyed : NodeId → Bool
  | keyed _ => true
  | _ => false

def isAssigned : NodeId → Bool
  | unassigned => false
  | _ => true

/-- The text a surface shows for an identity. Tokens of different identities may agree:
the key `n1` and the number 1 share one. -/
def token : NodeId → String
  | unassigned => "?"
  | generated n => "n" ++ toString n
  | keyed key => key

@[simp] theorem isKeyed_keyed (key : String) : (keyed key).isKeyed = true := rfl

@[simp] theorem isKeyed_generated (n : Nat) : (generated n).isKeyed = false := rfl

@[simp] theorem isKeyed_unassigned : unassigned.isKeyed = false := rfl

theorem isAssigned_of_isKeyed {id : NodeId} (h : id.isKeyed = true) : id.isAssigned = true := by
  cases id <;> simp_all [isKeyed, isAssigned]

end NodeId

/-! ### Handlers -/

/-- Identity of an event handler, of another sort than any node's. -/
structure HandlerId where
  val : Nat
  deriving DecidableEq, Repr, Inhabited

namespace HandlerId

/-- The number that no supply hands out: a handler that has not been given an identity. -/
def invalid : HandlerId := ⟨0⟩

def token (id : HandlerId) : String := "h" ++ toString id.val

end HandlerId

/-! ### Surface states -/

/-- Number of patch batches a surface has taken, counted modulo 2 ^ 64. -/
structure Version where
  val : UInt64
  deriving DecidableEq, Repr, Inhabited

namespace Version

def initial : Version := ⟨0⟩

def next (v : Version) : Version := ⟨v.val + 1⟩

def token (v : Version) : String := "v" ++ toString v.val.toNat

instance : LT Version := ⟨fun a b => a.val < b.val⟩

instance (a b : Version) : Decidable (a < b) := inferInstanceAs (Decidable (a.val < b.val))

theorem toNat_val_next (v : Version) :
    v.next.val.toNat = (v.val.toNat + 1) % 0x10000000000000000 := by
  simp only [next, UInt64.toNat_add]
  rfl

end Version

/-- The number of a document among those that a process has shown. They count from 1. -/
structure SurfaceHandle where
  val : Nat
  deriving DecidableEq, Repr

def SurfaceHandle.first : SurfaceHandle := ⟨1⟩

/-! ### The supply -/

/-- Counts of the numbers handed out so far, for nodes and for handlers. Numbers start at 1 and have
no bound here: a run is taken to draw fewer than 2 ^ 64 of either, which is what a machine word
holds. -/
structure IdSupply where
  nodes : Nat := 0
  handlers : Nat := 0
  deriving DecidableEq, Repr, Inhabited

namespace IdSupply

def mintNode (s : IdSupply) : NodeId × IdSupply :=
  (.generated (s.nodes + 1), { s with nodes := s.nodes + 1 })

def mintHandler (s : IdSupply) : HandlerId × IdSupply :=
  (⟨s.handlers + 1⟩, { s with handlers := s.handlers + 1 })

end IdSupply

end ViewLoop
