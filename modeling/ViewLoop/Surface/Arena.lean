import ViewLoop.Node
import ViewLoop.Surface.Error

/-!
# Live nodes

The nodes that a surface shows, each under its identity, with links to its parent and its
children. Payloads of handlers are forgotten on the way in: a surface knows which handler listens
for which event on which element, and not what it does.

`Arena.get?` is the view of an arena; `Arena.tree?` reads the tree below a node. Trees that are
inserted must have identities that are assigned, distinct and not yet live.
-/

namespace ViewLoop

/-- What a live node is, without its place in the tree. -/
inductive NodeContent where
  | element (tag : String) (attributes : List (Attribute Unit))
  | text (text : String)
  deriving DecidableEq, Repr

structure NodeRecord where
  content : NodeContent
  parent : Option NodeId
  children : List NodeId
  deriving DecidableEq, Repr

structure Arena where
  nodes : List (NodeId × NodeRecord) := []
  deriving DecidableEq, Repr

def Attribute.erased {P : Type} (a : Attribute P) : Attribute Unit := a.map fun _ => ()

def Node.content {P : Type} : Node P → NodeContent
  | .element _ tag attributes _ => .element tag (attributes.map Attribute.erased)
  | .text _ s => .text s

def NodeContent.isText : NodeContent → Bool
  | element .. => false
  | text _ => true

namespace Arena

/-! ### Looking up -/

def get? (a : Arena) (id : NodeId) : Option NodeRecord := a.nodes.lookup id

def contains (a : Arena) (id : NodeId) : Bool := (a.get? id).isSome

def size (a : Arena) : Nat := a.nodes.length

/-- The record of a live node, or why there is none. -/
def record (a : Arena) (id : NodeId) : Except SurfaceError NodeRecord :=
  if id.isAssigned then
    match a.get? id with
    | some r => .ok r
    | none => .error (.missingKey id)
  else .error (.invalidKey id)

def children (a : Arena) (parent : NodeId) : Except SurfaceError (List NodeId) :=
  match a.record parent with
  | .error e => .error e
  | .ok r => if r.content.isText then .error (.invalidParent parent) else .ok r.children

def position (a : Arena) (parent child : NodeId) : Except SurfaceError Nat :=
  match a.record parent with
  | .error e => .error e
  | .ok r =>
    if child ∈ r.children then .ok (r.children.idxOf child)
    else .error (.invalidSibling parent child)

def attributes (a : Arena) (element : NodeId) : Except SurfaceError (List (Attribute Unit)) :=
  match a.record element with
  | .error e => .error e
  | .ok r =>
    match r.content with
    | .element _ attributes => .ok attributes
    | .text _ => .error (.wrongNodeKind element)

/-! ### Trees in the arena -/

/-- The tree below a node, no deeper than `depth`. -/
def treeWithin (a : Arena) : (depth : Nat) → NodeId → Option (Node Unit)
  | 0, _ => none
  | depth + 1, id =>
    match a.get? id with
    | none => none
    | some r =>
      match r.content with
      | .text s => some (.text id s)
      | .element tag attributes =>
        (r.children.mapM (a.treeWithin depth)).map (.element id tag attributes ·)

/-- The tree below a node. No path in a tree is longer than the arena is large. -/
def tree? (a : Arena) (id : NodeId) : Option (Node Unit) := a.treeWithin a.size id

/-- The identities of a node and of all below it, no deeper than `depth`. -/
def idsWithin (a : Arena) : (depth : Nat) → NodeId → List NodeId
  | 0, _ => []
  | depth + 1, id =>
    match a.get? id with
    | none => [id]
    | some r => id :: r.children.flatMap (a.idsWithin depth)

def subtreeIds (a : Arena) (id : NodeId) : List NodeId := a.idsWithin (a.size + 1) id

/-! ### Changing records -/

def modify (a : Arena) (id : NodeId) (f : NodeRecord → NodeRecord) : Arena :=
  { nodes := a.nodes.map fun p => if p.1 = id then (p.1, f p.2) else p }

def setChildren (a : Arena) (id : NodeId) (children : List NodeId) : Arena :=
  a.modify id fun r => { r with children := children }

def setContent (a : Arena) (id : NodeId) (content : NodeContent) : Arena :=
  a.modify id fun r => { r with content := content }

def setAttributes (a : Arena) (id : NodeId) (attributes : List (Attribute Unit)) : Arena :=
  a.modify id fun r =>
    match r.content with
    | .element tag _ => { r with content := .element tag attributes }
    | .text _ => r

def insert (a : Arena) (id : NodeId) (r : NodeRecord) : Arena :=
  { nodes := (id, r) :: a.nodes.filter fun p => p.1 ≠ id }

/-! ### Inserting and removing trees -/

/-- The identities of a tree in the order in which they are checked: a node, then the trees below
it from right to left. -/
def checkOrder {P : Type} : Node P → List NodeId
  | .element id _ _ children => id :: forestCheckOrder children
  | .text id _ => [id]
where
  /-- The identities of a list of siblings, from right to left. -/
  forestCheckOrder {P : Type} : List (Node P) → List NodeId
    | [] => []
    | c :: cs => forestCheckOrder cs ++ checkOrder c

/-- Checks identities that are to become live: each must be assigned, must not occur twice, and
must be free. -/
def checkFree (free : NodeId → Bool) (seen : List NodeId) : List NodeId → Except SurfaceError Unit
  | [] => .ok ()
  | id :: rest =>
    if !id.isAssigned then .error (.invalidKey id)
    else if id ∈ seen ∨ !free id then .error (.duplicateKey id)
    else checkFree free (id :: seen) rest

/-- Checks that a tree can be inserted once the identities in `freed` are gone. -/
def checkInsertable {P : Type} (a : Arena) (freed : List NodeId) (n : Node P) :
    Except SurfaceError Unit :=
  checkFree (fun id => !a.contains id || freed.contains id) [] (checkOrder n)

mutual

/-- Inserts a tree below `parent`, which does not get to know it yet. -/
def insertTree {P : Type} (a : Arena) (parent : Option NodeId) : Node P → Arena
  | .element id tag attributes children =>
    insertForest
      (a.insert id
        { content := .element tag (attributes.map Attribute.erased)
          parent := parent
          children := children.map Node.id })
      id children
  | .text id s => a.insert id { content := .text s, parent := parent, children := [] }

def insertForest {P : Type} (a : Arena) (parent : NodeId) : List (Node P) → Arena
  | [] => a
  | c :: cs => insertForest (insertTree a (some parent) c) parent cs

end

/-- Takes an identity out of the children of its parent. -/
def unlink (a : Arena) (id : NodeId) : Arena :=
  match (a.get? id).bind NodeRecord.parent with
  | none => a
  | some parent => a.modify parent fun r => { r with children := r.children.filter (· ≠ id) }

def removeTree (a : Arena) (id : NodeId) : Except SurfaceError Arena :=
  match a.record id with
  | .error e => .error e
  | .ok _ =>
    let gone := a.subtreeIds id
    .ok { nodes := (a.unlink id).nodes.filter fun p => p.1 ∉ gone }

/-! ### First facts -/

theorem record_eq_ok_iff {a : Arena} {id : NodeId} {r : NodeRecord} :
    a.record id = .ok r ↔ id.isAssigned = true ∧ a.get? id = some r := by
  unfold record
  split
  · rename_i h
    cases hg : a.get? id <;> simp [h]
  · rename_i h
    simp [h]

end Arena

end ViewLoop
