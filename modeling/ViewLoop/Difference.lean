import ViewLoop.Patch

/-!
# Differences of trees

The patches that turn an old tree into a new one. Nodes are matched by identity alone.

* A node with the same identity, kind and tag is changed in place, wherever it stands among its
  siblings; one with the same identity but another kind or tag is replaced.
* Among siblings, identities that occur only in the old list are removed and those that occur
  only in the new list are added; a changed order of the others costs one reordering.
* Attributes are matched by key. The value of the identity attribute belongs to alignment, so
  only its presence is compared.
* A node that moves out of a replaced tree is removed on its own, since the replaced tree is not
  compared with anything.

`Difference.patches` puts all removals first, then all replacements, then all other changes, each
in pre-order: what a place needs to have gone is gone before anything enters it. Where an
identity occurs twice among siblings, only its first node is matched.
-/

namespace ViewLoop

/-- Patches in the three groups in which they are applied. -/
structure Changes (P : Type) where
  removals : List (Patch P) := []
  replacements : List (Patch P) := []
  updates : List (Patch P) := []

namespace Changes

variable {P : Type}

instance : Append (Changes P) :=
  ⟨fun a b => ⟨a.removals ++ b.removals, a.replacements ++ b.replacements, a.updates ++ b.updates⟩⟩

def replacement (parent : Option NodeId) (old new : Node P) : Changes P :=
  { replacements := [.replaceChild parent old new] }

@[simp] theorem removals_append (a b : Changes P) :
    (a ++ b).removals = a.removals ++ b.removals := rfl

@[simp] theorem replacements_append (a b : Changes P) :
    (a ++ b).replacements = a.replacements ++ b.replacements := rfl

@[simp] theorem updates_append (a b : Changes P) :
    (a ++ b).updates = a.updates ++ b.updates := rfl

end Changes

namespace Difference

variable {P : Type}

/-! ### Attributes -/

def withKey (attributes : List (Attribute P)) (key : AttributeKey) : Option (Attribute P) :=
  attributes.find? fun a => a.key = key

/-- The attributes whose key did not occur before. -/
def firsts (seen : List AttributeKey) : List (Attribute P) → List (Attribute P)
  | [] => []
  | a :: rest =>
    if a.key ∈ seen then firsts seen rest else a :: firsts (a.key :: seen) rest

def attributePatch [DecidableEq P] (element : NodeId) (old : List (Attribute P))
    (a : Attribute P) : Option (Patch P) :=
  match withKey old a.key with
  | some b => if a.isIdentity ∨ b = a then none else some (.updateAttribute element b a)
  | none => some (.addAttribute element (if a.isIdentity then .identity element else a))

/-- The patches for the attributes of an element: removals in old order, then the others in new
order. -/
def attributePatches [DecidableEq P] (element : NodeId) (old new : List (Attribute P)) :
    List (Patch P) :=
  (((firsts [] old).filter fun a => (withKey new a.key).isNone).map (.removeAttribute element ·))
    ++ (firsts [] new).filterMap (attributePatch element old)

/-! ### Children -/

/-- The old children that go away: those whose identity is not in the new list, and those whose
identity an earlier old child has. -/
def departed (new : List (Node P)) (seen : List NodeId) : List (Node P) → List (Node P)
  | [] => []
  | c :: cs =>
    if c.id ∈ seen ∨ c.id ∉ new.map Node.id then c :: departed new seen cs
    else departed new (c.id :: seen) cs

/-- The new children that come in, each with its position: those whose identity is not in the old
list, and those whose identity an earlier new child has. -/
def arrived (old : List (Node P)) (seen : List NodeId) (index : Nat) :
    List (Node P) → List (Nat × Node P)
  | [] => []
  | c :: cs =>
    if c.id ∈ seen ∨ c.id ∉ old.map Node.id then (index, c) :: arrived old seen (index + 1) cs
    else arrived old (c.id :: seen) (index + 1) cs

/-- The identities of the children that stay, in new order. -/
def kept (old : List (Node P)) (seen : List NodeId) : List (Node P) → List NodeId
  | [] => []
  | c :: cs =>
    if c.id ∈ seen ∨ c.id ∉ old.map Node.id then kept old seen cs
    else c.id :: kept old (c.id :: seen) cs

def position (children : List (Node P)) (id : NodeId) : Nat :=
  (children.map Node.id).idxOf id

/-- Whether no element of a list is smaller than the one before it. -/
def ascending : List Nat → Bool
  | a :: b :: rest => a ≤ b && ascending (b :: rest)
  | _ => true

/-- The reordering of the children that stay, if they need one. -/
def reordering (parent : NodeId) (old new : List (Node P)) : List (Patch P) :=
  let order := kept old [] new
  if ascending (order.map (position old)) then [] else [.reorderChildren parent order]

def siblingRemovals (parent : NodeId) (old new : List (Node P)) : List (Patch P) :=
  (departed new [] old).map (Patch.removal parent)

def siblingAdditions (parent : NodeId) (old new : List (Node P)) : List (Patch P) :=
  (arrived old [] 0 new).map fun c => Patch.addition parent c.1 c.2

/-! ### Trees -/

mutual

/-- The changes of a node that keeps its identity. -/
def node [DecidableEq P] (parent : Option NodeId) (old : Node P) : Node P → Changes P
  | .text id t =>
    match old with
    | .text i s => if s = t then {} else { updates := [.updateText i t] }
    | .element .. => .replacement parent old (.text id t)
  | .element id tag attributes children =>
    match old with
    | .text .. => .replacement parent old (.element id tag attributes children)
    | .element i was before below =>
      if was = tag then
        { removals := siblingRemovals i below children
          updates := attributePatches i before attributes }
          ++ forest i below [] children
          ++ { updates := reordering i below children ++ siblingAdditions i below children }
      else .replacement parent old (.element id tag attributes children)

/-- The changes of the children of `parent` that stay, in new order; `seen` holds the identities
of those already compared. -/
def forest [DecidableEq P] (parent : NodeId) (old : List (Node P)) (seen : List NodeId) :
    List (Node P) → Changes P
  | [] => {}
  | c :: cs =>
    if c.id ∈ seen then forest parent old seen cs
    else
      match old.find? fun o => o.id = c.id with
      | some o => node (some parent) o c ++ forest parent old (c.id :: seen) cs
      | none => forest parent old seen cs

end

/-! ### Nodes that move out of a replaced tree -/

mutual

/-- The removals of nodes below a replaced node that are live afterwards but do not come back
with the replacement. -/
def detached (live back : List NodeId) : Node P → List (Patch P)
  | .element id _ _ children => detachedFrom id live back children
  | .text .. => []

def detachedFrom (parent : NodeId) (live back : List NodeId) : List (Node P) → List (Patch P)
  | [] => []
  | c :: cs =>
    (if c.id ∈ live ∧ c.id ∉ back then [Patch.removal parent c] else detached live back c)
      ++ detachedFrom parent live back cs

end

/-- The removals that a replacement below the root needs before it. -/
def escapes (live : List NodeId) : Patch P → List (Patch P)
  | .replaceChild (some _) old new => detached live new.ids old
  | _ => []

def changes [DecidableEq P] (old new : Node P) : Changes P :=
  if old.id = new.id then node none old new else .replacement none old new

/-- The patches that turn `old` into `new`. -/
def patches [DecidableEq P] (old new : Node P) : List (Patch P) :=
  let c := changes old new
  c.removals ++ c.replacements.flatMap (escapes new.ids) ++ c.replacements ++ c.updates

end Difference

end ViewLoop
