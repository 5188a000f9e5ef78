import ViewLoop.Node

/-!
# Patches

The changes that turn one tree into another, one node or attribute at a time. A patch carries
every node and attribute it needs, so it is applied without a look at the trees it came from.
Patches are applied in order.
-/

namespace ViewLoop

inductive Patch (P : Type) where
  /-- Puts an element and all below it under `parent`, at position `index`. -/
  | addChild (parent : NodeId) (index : Nat) (child : Node P)
  | removeChild (parent : NodeId) (child : Node P)
  /-- Puts `new` in the place of `old`; without a parent, the place is the root. -/
  | replaceChild (parent : Option NodeId) (old new : Node P)
  | reorderChildren (parent : NodeId) (order : List NodeId)
  /-- Puts the attribute `new` in the place of the one with the key of `old`. -/
  | updateAttribute (element : NodeId) (old new : Attribute P)
  | addAttribute (element : NodeId) (changed : Attribute P)
  | removeAttribute (element : NodeId) (changed : Attribute P)
  | updateText (node : NodeId) (text : String)
  | addText (parent : NodeId) (index : Nat) (node : Node P)
  | removeText (parent : NodeId) (node : NodeId)
  deriving DecidableEq, Repr

namespace Patch

variable {P : Type}

def label : Patch P → String
  | addChild .. => "add-child"
  | removeChild .. => "remove-child"
  | replaceChild .. => "replace-child"
  | reorderChildren .. => "reorder-children"
  | updateAttribute .. => "update-attribute"
  | addAttribute .. => "add-attribute"
  | removeAttribute .. => "remove-attribute"
  | updateText .. => "update-text"
  | addText .. => "add-text"
  | removeText .. => "remove-text"

def isRemoval : Patch P → Bool
  | removeChild .. => true
  | removeText .. => true
  | _ => false

def addition (parent : NodeId) (index : Nat) (child : Node P) : Patch P :=
  if child.isText then addText parent index child else addChild parent index child

def removal (parent : NodeId) (child : Node P) : Patch P :=
  if child.isText then removeText parent child.id else removeChild parent child

@[simp] theorem isRemoval_removal (parent : NodeId) (child : Node P) :
    (removal parent child).isRemoval = true := by
  unfold removal
  split <;> rfl

@[simp] theorem isRemoval_addition (parent : NodeId) (index : Nat) (child : Node P) :
    (addition parent index child).isRemoval = false := by
  unfold addition
  split <;> rfl

end Patch

end ViewLoop
