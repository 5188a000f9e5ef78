import ViewLoop.Node

/-!
# Alignment

A view keeps nothing between two calls, so the tree it returns has no identities but its keys.
Alignment gives every node and handler of a fresh tree its identity: the one it had in the
previous tree if it is recognised there, and a newly drawn one otherwise.

* A keyed child is recognised in the previous sibling of that key, the i-th unkeyed child in the
  i-th unkeyed previous sibling, and the root in the previous root.
* Kind and tag must agree, and nothing is recognised below a node that is not.
* Handlers keep the identity of the handler for the same event on the same element. Of several
  handlers for one event only the first stays.
* The identity attribute shows the final token of its element.

`Alignment.run` returns the aligned tree, the supply after it, and warnings.
-/

namespace ViewLoop

/-- What alignment finds wrong with a fresh tree and puts up with. -/
inductive AlignmentWarning where
  /-- An element has a second handler for an event, which is dropped. -/
  | repeatedHandler (event : String) (element : NodeId)
  | repeatedKey (key : NodeId)
  deriving DecidableEq, Repr

def AlignmentWarning.message : AlignmentWarning → String
  | repeatedHandler event element =>
    "dropping duplicate " ++ event ++ " handler on " ++ element.token
  | repeatedKey key => "duplicate sibling key " ++ key.token

namespace Alignment

variable {P : Type}

/-- What alignment hands on from node to node: the supply of identities and the warnings so far. -/
structure State where
  supply : IdSupply
  warnings : List AlignmentWarning := []
  deriving DecidableEq, Repr

def State.warn (s : State) (w : AlignmentWarning) : State :=
  { s with warnings := s.warnings ++ [w] }

/-- Whether a fresh node is the same logical node as a previous one: they have the same shape,
and the fresh node has the key of the previous one or neither has a key. -/
def Matches (previous fresh : Node P) : Prop :=
  previous.SameShape fresh ∧
    if fresh.id.isKeyed then previous.id = fresh.id else previous.id.isKeyed = false

instance (previous fresh : Node P) : Decidable (Matches previous fresh) :=
  inferInstanceAs (Decidable (_ ∧ _))

/-! ### Attributes -/

/-- The attributes without the handlers for events in `seen` or seen before, and the events of
those left out. -/
def dropRepeated (seen : List String) : List (Attribute P) → List (Attribute P) × List String
  | [] => ([], [])
  | .plain name value :: rest =>
    let r := dropRepeated seen rest
    (.plain name value :: r.1, r.2)
  | .handler h :: rest =>
    if h.event ∈ seen then
      let r := dropRepeated seen rest
      (r.1, h.event :: r.2)
    else
      let r := dropRepeated (h.event :: seen) rest
      (.handler h :: r.1, r.2)

def handlerId? (attributes : List (Attribute P)) (event : String) : Option HandlerId :=
  ((attributes.filterMap Attribute.handler?).find? fun h => h.event == event).map Handler.id

/-- The identity for a handler of a fresh element: the previous one for its event, or a new one. -/
def handlerIdFor (previous : List (Attribute P)) (event : String) (supply : IdSupply) :
    HandlerId × IdSupply :=
  match handlerId? previous event with
  | some id => (id, supply)
  | none => supply.mintHandler

def identify (owner : NodeId) (previous : List (Attribute P)) (supply : IdSupply) :
    List (Attribute P) → List (Attribute P) × IdSupply
  | [] => ([], supply)
  | .plain name value :: rest =>
    let r := identify owner previous supply rest
    (if name = Attribute.identityName then Attribute.identity owner :: r.1
      else .plain name value :: r.1, r.2)
  | .handler h :: rest =>
    let own := handlerIdFor previous h.event supply
    let r := identify owner previous own.2 rest
    (.handler { h with id := own.1 } :: r.1, r.2)

def attributes (owner : NodeId) (previous fresh : List (Attribute P)) (s : State) :
    List (Attribute P) × State :=
  let kept := dropRepeated [] fresh
  let r := identify owner previous s.supply kept.1
  (r.1, { supply := r.2
          warnings := s.warnings ++ kept.2.map fun event => .repeatedHandler event owner })

/-! ### Nodes -/

/-- The identity for a fresh node: its key, that of the node it is recognised in, or a new one. -/
def idFor (recognised : Option (Node P)) (fresh : NodeId) (s : State) : NodeId × State :=
  if fresh.isKeyed then (fresh, s)
  else
    match recognised with
    | some previous => (previous.id, s)
    | none => (s.supply.mintNode.1, { s with supply := s.supply.mintNode.2 })

/-- The previous node that a fresh node is recognised in, if its candidate is the same node. -/
def recognise (candidate : Option (Node P)) (fresh : Node P) : Option (Node P) :=
  candidate.filter fun previous => Matches previous fresh

/-- The previous siblings that the children of a fresh element are compared with: all of them,
for look-up by key, and the unkeyed ones that are still to be taken. -/
structure Siblings (P : Type) where
  all : List (Node P)
  /-- The previous unkeyed children that no fresh child was compared with yet. -/
  unkeyed : List (Node P)

def Siblings.below (previous : Node P) : Siblings P :=
  { all := previous.children, unkeyed := previous.children.filter fun c => !c.id.isKeyed }

/-- The candidate for a fresh child, and the siblings left for those after it. -/
def Siblings.candidate (siblings : Siblings P) (fresh : NodeId) :
    Option (Node P) × Siblings P :=
  if fresh.isKeyed then (siblings.all.find? fun c => c.id = fresh, siblings)
  else (siblings.unkeyed.head?, { siblings with unkeyed := siblings.unkeyed.tail })

def warnRepeatedKey (seen : List NodeId) (id : NodeId) (s : State) : State :=
  if id.isKeyed ∧ id ∈ seen then s.warn (.repeatedKey id) else s

mutual

/-- Aligns a fresh node with the candidate for it. -/
def node (candidate : Option (Node P)) (s : State) : Node P → Node P × State
  | .text id t =>
    let own := idFor (recognise candidate (.text id t)) id s
    (.text own.1 t, own.2)
  | .element id tag fresh children =>
    let recognised := recognise candidate (.element id tag fresh children)
    let own := idFor recognised id s
    let kept := attributes own.1 ((recognised.map Node.attributes).getD []) fresh own.2
    let below := forest (recognised.map Siblings.below) [] kept.2 children
    (.element own.1 tag kept.1 below.1, below.2)

/-- Aligns fresh siblings with the previous ones, if their parent is recognised; `seen` holds the
identities of the fresh siblings before them. -/
def forest (siblings : Option (Siblings P)) (seen : List NodeId) (s : State) :
    List (Node P) → List (Node P) × State
  | [] => ([], s)
  | c :: cs =>
    match siblings with
    | none =>
      let first := node none s c
      let rest := forest none seen first.2 cs
      (first.1 :: rest.1, rest.2)
    | some siblings =>
      let found := siblings.candidate c.id
      let first := node found.1 (warnRepeatedKey seen c.id s) c
      let rest := forest (some found.2) (c.id :: seen) first.2 cs
      (first.1 :: rest.1, rest.2)

end

/-- Aligns a fresh tree with the previous one: the aligned tree, the supply after it, and the
warnings. -/
def run (previous : Option (Node P)) (fresh : Node P) (supply : IdSupply) : Node P × State :=
  node previous { supply := supply } fresh

/-! ### First facts -/

theorem recognise_eq_some_iff {candidate : Option (Node P)} {fresh previous : Node P} :
    recognise candidate fresh = some previous ↔
      candidate = some previous ∧ Matches previous fresh := by
  simp [recognise, Option.filter_eq_some_iff]

theorem handlerIdFor_some {previous : List (Attribute P)} {event : String} {id : HandlerId}
    (h : handlerId? previous event = some id) (supply : IdSupply) :
    handlerIdFor previous event supply = (id, supply) := by
  simp only [handlerIdFor, h]

theorem handlerIdFor_none {previous : List (Attribute P)} {event : String}
    (h : handlerId? previous event = none) (supply : IdSupply) :
    handlerIdFor previous event supply = supply.mintHandler := by
  simp only [handlerIdFor, h]

end Alignment

end ViewLoop
