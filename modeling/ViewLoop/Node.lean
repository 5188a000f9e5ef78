import ViewLoop.Identity

/-!
# Virtual trees

A view describes a page as a tree of elements and texts. An element carries attributes, and an
attribute is either a plain name and value or a handler for one kind of event. What a handler
does is left open: trees are polymorphic in the payload `P` of their handlers, and `Node Unit` is
a tree whose payloads have been forgotten.

`ids`, `handlers` and `size` read a tree in pre-order; the forest versions beside them say the
same of a list of siblings.
-/

namespace ViewLoop

/-! ### Attributes -/

structure Handler (P : Type) where
  event : String
  id : HandlerId
  payload : P
  deriving DecidableEq, Repr

/-- What an attribute is looked up by. Plain names and events are separate name spaces. -/
inductive AttributeKey where
  | plain (name : String)
  | event (event : String)
  deriving DecidableEq, Repr

inductive Attribute (P : Type) where
  | plain (name value : String)
  | handler (h : Handler P)
  deriving DecidableEq, Repr

def Handler.map {P Q : Type} (f : P → Q) (h : Handler P) : Handler Q :=
  { event := h.event, id := h.id, payload := f h.payload }

namespace Attribute

variable {P Q : Type}

/-- The plain attribute that shows its element's identity token. -/
def identityName : String := "id"

def key : Attribute P → AttributeKey
  | plain name _ => .plain name
  | handler h => .event h.event

/-- The name a surface shows: `on` and the event for a handler. -/
def name : Attribute P → String
  | plain name _ => name
  | handler h => "on" ++ h.event

def handler? : Attribute P → Option (Handler P)
  | plain _ _ => none
  | handler h => some h

def isIdentity : Attribute P → Bool
  | plain name _ => name == identityName
  | handler _ => false

def identity (owner : NodeId) : Attribute P := plain identityName owner.token

def map (f : P → Q) : Attribute P → Attribute Q
  | plain name value => plain name value
  | handler h => handler (h.map f)

@[simp] theorem key_map (f : P → Q) (a : Attribute P) : (a.map f).key = a.key := by
  cases a <;> rfl

end Attribute

/-! ### Trees -/

inductive Node (P : Type) where
  | element (id : NodeId) (tag : String) (attributes : List (Attribute P))
      (children : List (Node P))
  | text (id : NodeId) (text : String)
  deriving Repr, Inhabited

namespace Node

variable {P Q : Type}

def id : Node P → NodeId
  | element id _ _ _ => id
  | text id _ => id

def isText : Node P → Bool
  | element .. => false
  | text .. => true

def tag? : Node P → Option String
  | element _ tag _ _ => some tag
  | text .. => none

def attributes : Node P → List (Attribute P)
  | element _ _ attributes _ => attributes
  | text .. => []

def children : Node P → List (Node P)
  | element _ _ _ children => children
  | text .. => []

/-- Whether two nodes could take the same place without a replacement: both are texts, or both
are elements of one tag. -/
def SameShape (a b : Node P) : Prop := a.tag? = b.tag?

instance (a b : Node P) : Decidable (a.SameShape b) :=
  inferInstanceAs (Decidable (a.tag? = b.tag?))

/-! ### Equality -/

mutual

def decEq [DecidableEq P] : (a b : Node P) → Decidable (a = b)
  | element i t as cs, element j u bs ds =>
    match decEqForest cs ds with
    | isTrue h => decidable_of_decidable_of_iff (p := i = j ∧ t = u ∧ as = bs) (by simp [h])
    | isFalse h => isFalse (by simp [h])
  | text i s, text j t => decidable_of_decidable_of_iff (p := i = j ∧ s = t) (by simp)
  | element .., text .. => isFalse nofun
  | text .., element .. => isFalse nofun

def decEqForest [DecidableEq P] : (as bs : List (Node P)) → Decidable (as = bs)
  | [], [] => isTrue rfl
  | a :: as, b :: bs =>
    match decEq a b, decEqForest as bs with
    | isTrue h, isTrue k => isTrue (by rw [h, k])
    | isFalse h, _ => isFalse (by simp [h])
    | _, isFalse k => isFalse (by simp [k])
  | [], _ :: _ => isFalse nofun
  | _ :: _, [] => isFalse nofun

end

instance [DecidableEq P] : DecidableEq (Node P) := decEq

/-! ### Readings in pre-order -/

mutual

def ids : Node P → List NodeId
  | element id _ _ children => id :: forestIds children
  | text id _ => [id]

def forestIds : List (Node P) → List NodeId
  | [] => []
  | c :: cs => c.ids ++ forestIds cs

end

mutual

/-- Every handler of a tree in pre-order, with the identity of the element that carries it. -/
def handlers : Node P → List (NodeId × Handler P)
  | element id _ attributes children =>
    (attributes.filterMap Attribute.handler?).map (id, ·) ++ forestHandlers children
  | text .. => []

def forestHandlers : List (Node P) → List (NodeId × Handler P)
  | [] => []
  | c :: cs => c.handlers ++ forestHandlers cs

end

mutual

def size : Node P → Nat
  | element _ _ _ children => 1 + forestSize children
  | text .. => 1

def forestSize : List (Node P) → Nat
  | [] => 0
  | c :: cs => c.size + forestSize cs

end

theorem forestIds_eq_flatMap (cs : List (Node P)) : forestIds cs = cs.flatMap ids := by
  induction cs with
  | nil => rfl
  | cons c cs ih => simp only [forestIds, List.flatMap_cons, ih]

theorem forestHandlers_eq_flatMap (cs : List (Node P)) :
    forestHandlers cs = cs.flatMap handlers := by
  induction cs with
  | nil => rfl
  | cons c cs ih => simp only [forestHandlers, List.flatMap_cons, ih]

theorem id_mem_ids (n : Node P) : n.id ∈ n.ids := by
  cases n <;> simp [ids, id]

/-! ### Payloads -/

mutual

def map (f : P → Q) : Node P → Node Q
  | element id tag attributes children =>
    element id tag (attributes.map (Attribute.map f)) (mapForest f children)
  | text id s => text id s

/-- A list of siblings with the payloads of their handlers changed by `f`. -/
def mapForest (f : P → Q) : List (Node P) → List (Node Q)
  | [] => []
  | c :: cs => c.map f :: mapForest f cs

end

/-- The tree with its payloads forgotten: what is left says which handler listens for which
event on which element. -/
def erased (n : Node P) : Node Unit := n.map fun _ => ()

theorem mapForest_eq_map (f : P → Q) (cs : List (Node P)) : mapForest f cs = cs.map (map f) := by
  induction cs with
  | nil => rfl
  | cons c cs ih => simp only [mapForest, List.map_cons, ih]

@[simp] theorem id_map (f : P → Q) (n : Node P) : (n.map f).id = n.id := by
  cases n <;> rfl

end Node

end ViewLoop
