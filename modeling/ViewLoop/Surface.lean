import ViewLoop.Markup
import ViewLoop.Patch
import ViewLoop.Snapshot
import ViewLoop.Surface.Arena
import ViewLoop.Url.Parse

/-!
# Surfaces

What a program is shown on: live nodes, a title, a head, a place and a history. A surface takes a
first tree, then patches; it never sees the trees that the patches come from. Every operation is
checked against what is live, and one that is refused leaves the surface as it was.

Operations are `Surface.Edit`s: they change the surface step by step and may stop with a
`SurfaceError`. What a surface shows is read with `Surface.tree`, `Surface.html` and
`Surface.documentHtml`.
-/

namespace ViewLoop

structure Surface where
  arena : Arena := {}
  /-- The root of the live nodes, once a tree was rendered. -/
  root : Option NodeId := none
  handle : Option SurfaceHandle := none
  version : Version := .initial
  title : String := ""
  head : List HeadEntry := []
  current : Url
  history : List Url
  loads : List Url := []
  deriving DecidableEq, Repr

namespace Surface

variable {P : Type}

def fresh (start : Url) : Surface := { current := start, history := [start] }

abbrev Edit (α : Type) := EStateM SurfaceError Surface α

/-- Goes on with a result, or refuses with its error. -/
def require {α : Type} : Except SurfaceError α → Edit α
  | .ok a => pure a
  | .error e => throw e

def modifyArena (f : Arena → Arena) : Edit Unit := modify fun s => { s with arena := f s.arena }

/-! ### Reading -/

def isRendered (s : Surface) : Bool := s.root.isSome

def nodeCount (s : Surface) : Nat := s.arena.size

def contains (s : Surface) (id : NodeId) : Bool := s.arena.contains id

def textOf? (s : Surface) (id : NodeId) : Option String :=
  match (s.arena.get? id).map NodeRecord.content with
  | some (.text t) => some t
  | _ => none

def listener? (s : Surface) (element : NodeId) (event : String) : Option HandlerId :=
  match (s.arena.get? element).map NodeRecord.content with
  | some (.element _ attributes) =>
    ((attributes.filterMap Attribute.handler?).find? fun h => h.event = event).map Handler.id
  | _ => none

def tree (s : Surface) : Except SurfaceError (Node Unit) :=
  match s.root with
  | none => .error .missingRoot
  | some root =>
    match s.arena.tree? root with
    | some t => .ok t
    | none => .error (.missingKey root)

def snapshot (s : Surface) (options : SnapshotOptions) : Except SurfaceError (List String) :=
  s.tree.map (Snapshot.lines options)

def html (s : Surface) : Except SurfaceError String := s.tree.map Markup.ofNode

def documentHtml (s : Surface) : Except SurfaceError String :=
  s.html.map (Markup.page s.title s.head)

/-! ### Nodes -/

def insertChild (parent : NodeId) (index : Nat) (child : Node P) : Edit Unit := do
  let before ← require ((← get).arena.children parent)
  if before.length < index then throw (.invalidIndex parent index before.length)
  require ((← get).arena.checkInsertable [] child)
  modifyArena fun a => a.insertTree (some parent) child
  let siblings ← require ((← get).arena.children parent)
  modifyArena fun a => a.setChildren parent (siblings.insertIdx index child.id)

/-- Takes a node, which must be a text or an element as `isText` says, away from its parent. -/
def removeChild (parent child : NodeId) (isText : Bool) : Edit Unit := do
  let r ← require ((← get).arena.record child)
  if r.content.isText != isText then throw (.wrongNodeKind child)
  let _ ← require ((← get).arena.position parent child)
  let rest ← require ((← get).arena.removeTree child)
  modifyArena fun _ => rest

/-- The place of a node that is to be replaced: among the children of its parent, or the root. -/
def slot (s : Surface) (parent : Option NodeId) (old : NodeId) :
    Except SurfaceError (Option (NodeId × Nat)) :=
  match parent with
  | some parent => (s.arena.position parent old).map fun i => some (parent, i)
  | none => if s.root = some old then .ok none else .error (.invalidSibling .unassigned old)

/-- Puts a tree in the place of a node and all below it. -/
def replaceChild (parent : Option NodeId) (old : NodeId) (new : Node P) : Edit Unit := do
  let place ← require ((← get).slot parent old)
  require ((← get).arena.checkInsertable ((← get).arena.subtreeIds old) new)
  let rest ← require ((← get).arena.removeTree old)
  modifyArena fun _ => rest.insertTree parent new
  match place with
  | some (parent, index) => do
    let siblings ← require ((← get).arena.children parent)
    modifyArena fun a => a.setChildren parent (siblings.insertIdx index new.id)
  | none => modify fun s => { s with root := some new.id }

def sameMembers (as bs : List NodeId) : Bool := as.all bs.contains && bs.all as.contains

def reorderChildren (parent : NodeId) (order : List NodeId) : Edit Unit := do
  let children ← require ((← get).arena.children parent)
  if order.length ≠ children.length ∨ ¬order.Nodup ∨ sameMembers children order = false then
    throw (.invalidReorder parent)
  modifyArena fun a => a.setChildren parent order

/-- Puts an attribute in the place of the one with the key of `old`. -/
def updateAttribute (element : NodeId) (old new : Attribute P) : Edit Unit := do
  let attributes ← require ((← get).arena.attributes element)
  match attributes.findIdx? fun a => a.key = old.key with
  | none => throw (.missingAttribute element old.name)
  | some i => modifyArena fun a => a.setAttributes element (attributes.set i new.erased)

def addAttribute (element : NodeId) (added : Attribute P) : Edit Unit := do
  let attributes ← require ((← get).arena.attributes element)
  if attributes.any fun a => a.key = added.key then
    throw (.duplicateAttribute element added.name)
  modifyArena fun a => a.setAttributes element (attributes ++ [added.erased])

/-- Takes away the first attribute with a key. -/
def removeAttribute (element : NodeId) (removed : Attribute P) : Edit Unit := do
  let attributes ← require ((← get).arena.attributes element)
  match attributes.findIdx? fun a => a.key = removed.key with
  | none => throw (.missingAttribute element removed.name)
  | some i => modifyArena fun a => a.setAttributes element (attributes.eraseIdx i)

def updateText (node : NodeId) (text : String) : Edit Unit := do
  let r ← require ((← get).arena.record node)
  if r.content.isText then modifyArena fun a => a.setContent node (.text text)
  else throw (.wrongNodeKind node)

/-- Shows a first tree. The process counts the surfaces it renders, so the handle comes from
outside. -/
def render (root : Node P) (handle : SurfaceHandle := .first) : Edit Unit := do
  if (← get).root.isSome then throw .alreadyRendered
  require ((← get).arena.checkInsertable [] root)
  modifyArena fun a => a.insertTree none root
  modify fun s => { s with root := some root.id, handle := some handle }

def apply : Patch P → Edit Unit
  | .addChild parent index child =>
    if child.isText then throw (.wrongNodeKind child.id) else insertChild parent index child
  | .addText parent index node =>
    if node.isText then insertChild parent index node else throw (.wrongNodeKind node.id)
  | .removeChild parent child => removeChild parent child.id false
  | .removeText parent node => removeChild parent node true
  | .replaceChild parent old new => replaceChild parent old.id new
  | .reorderChildren parent order => reorderChildren parent order
  | .updateAttribute element old new => updateAttribute element old new
  | .addAttribute element added => addAttribute element added
  | .removeAttribute element removed => removeAttribute element removed
  | .updateText node text => updateText node text

/-! ### The document -/

def setTitle (s : Surface) (title : String) : Surface := { s with title := title }

def applyHead (patch : HeadPatch) : Edit Unit := do
  let key := patch.entry.key
  let head := (← get).head
  match patch, head.findIdx? fun e => e.key == key with
  | .add e, none => modify fun s => { s with head := head ++ [e] }
  | .add _, some _ => throw (.duplicateHeadKey key)
  | .update e, some i => modify fun s => { s with head := head.set i e }
  | .remove _, some i => modify fun s => { s with head := head.eraseIdx i }
  | .update _, none => throw (.missingHeadKey key)
  | .remove _, none => throw (.missingHeadKey key)

/-- The address that a text stands for here. -/
def resolve (s : Surface) (url : String) : Except SurfaceError Url :=
  match s.current.join url with
  | .ok u => .ok u
  | .error cause => .error (.invalidUrl url cause)

def pushUrl (url : String) : Edit Url := do
  let next ← require ((← get).resolve url)
  modify fun s => { s with history := s.history ++ [next], current := next }
  return next

/-- Goes to an address in the place of the present one. -/
def replaceUrl (url : String) : Edit Url := do
  let next ← require ((← get).resolve url)
  modify fun s => { s with history := s.history.dropLast ++ [next], current := next }
  return next

def loadUrl (url : String) : Edit Url := do
  let next ← require ((← get).resolve url)
  modify fun s =>
    { s with loads := s.loads ++ [next], history := s.history ++ [next], current := next }
  return next

/-- Ends a batch that starts at one version and ends at the next. -/
def bump (start stop : Version) : Edit Unit := do
  let current := (← get).version
  if current ≠ start then throw (.versionMismatch current start)
  if stop ≠ start.next then throw (.notNextVersion start stop)
  modify fun s => { s with version := stop }

end Surface

end ViewLoop
