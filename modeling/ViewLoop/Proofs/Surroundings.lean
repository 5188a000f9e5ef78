import ViewLoop.Proofs.Heeding
import ViewLoop.Session.Cycle

/-!
# What renderings leave alone

Showing a document changes live nodes, handlers, the title, the head and the supply of identities.
Nothing else changes before its batch ends, however that goes (`Session.preserves_changeFirst`,
`Session.preserves_changeNext`). Over a whole rendering the mailbox and the state of the executor
are what they were, and the session stays at its address (`Session.preserves_renderFirst`,
`Session.preserves_renderNext`).
-/

namespace ViewLoop

variable {ε σ τ α β : Type} {f : σ → τ}

/-- `f` tells the same of both states. -/
def Same (f : σ → τ) (s s' : σ) : Prop := f s' = f s

instance : IsPreorder σ (Same f) where
  refl _ := rfl
  trans _ _ _ h h' := h'.trans h

/-- However the action ends, `f` tells of the state what it told before. -/
abbrev Preserves (f : σ → τ) (x : EStateM ε σ α) : Prop := Heeds (Same f) (fun _ => True) x

/-- A check may stop an action before the rest of it. -/
theorem preserves_check {x : Unit → EStateM ε σ β} (hx : Preserves f (x ())) {c : Prop}
    [Decidable c] {e : ε} :
    Preserves f (if c then (throw e : EStateM ε σ Unit) >>= x else x ()) := by
  split
  · exact .throw trivial
  · exact hx

/-- What is told less of a state is preserved with it. -/
theorem Preserves.told {τ' : Type} {x : EStateM ε σ α} (h : Preserves f x) (g : τ → τ') :
    Preserves (fun s => g (f s)) x :=
  ⟨fun s => congrArg g (h.state s), fun _ _ _ _ => trivial⟩

/-! ### Surfaces -/

namespace Surface

variable {P : Type} {f : Surface → τ}

/-- `f` tells nothing of live nodes, title and head. -/
structure Unseen (f : Surface → τ) : Prop where
  nodes : ∀ s a r h, f { s with arena := a, root := r, handle := h } = f s
  title : ∀ s t, f { s with title := t } = f s
  head : ∀ s l, f { s with head := l } = f s

theorem preserves_require (r : Except SurfaceError α) : Preserves f (require r) := by
  cases r with
  | ok a => exact .pure a
  | error e => exact .throw trivial

/-- What goes on with a part of the surface that is read, or stops there. -/
theorem preserves_reading (r : Surface → Except SurfaceError α) {x : α → Edit β}
    (hx : ∀ a, Preserves f (x a)) :
    Preserves f (do x (← require (r (← get)))) :=
  .get_bind fun s => (preserves_require (r s)).bind hx

section Unseen

variable (hf : Unseen f)
include hf

theorem preserves_modifyArena (g : Arena → Arena) : Preserves f (modifyArena g) :=
  .modify fun s => hf.nodes s (g s.arena) s.root s.handle

theorem preserves_insertChild (parent : NodeId) (index : Nat) (child : Node P) :
    Preserves f (insertChild parent index child) := by
  refine preserves_reading (fun s => s.arena.children parent) fun before => preserves_check ?_
  refine preserves_reading (fun s => s.arena.checkInsertable [] child) fun _ => ?_
  refine (preserves_modifyArena hf _).bind fun _ => ?_
  exact preserves_reading (fun s => s.arena.children parent) fun _ => preserves_modifyArena hf _

theorem preserves_removeChild (parent child : NodeId) (isText : Bool) :
    Preserves f (removeChild parent child isText) := by
  refine preserves_reading (fun s => s.arena.record child) fun r => preserves_check ?_
  refine preserves_reading (fun s => s.arena.position parent child) fun _ => ?_
  exact preserves_reading (fun s => s.arena.removeTree child) fun _ => preserves_modifyArena hf _

theorem preserves_replaceChild (parent : Option NodeId) (old : NodeId) (new : Node P) :
    Preserves f (replaceChild parent old new) := by
  refine preserves_reading (fun s => s.slot parent old) fun place => ?_
  refine preserves_reading
    (fun s => s.arena.checkInsertable (s.arena.subtreeIds old) new) fun _ => ?_
  refine preserves_reading (fun s => s.arena.removeTree old) fun rest => ?_
  refine (preserves_modifyArena hf _).bind fun _ => ?_
  cases place with
  | some place =>
    exact preserves_reading (fun s => s.arena.children place.1) fun _ => preserves_modifyArena hf _
  | none => exact .modify fun s => hf.nodes s s.arena (some new.id) s.handle

theorem preserves_reorderChildren (parent : NodeId) (order : List NodeId) :
    Preserves f (reorderChildren parent order) :=
  preserves_reading (fun s => s.arena.children parent) fun _ =>
    preserves_check (preserves_modifyArena hf _)

theorem preserves_updateAttribute (element : NodeId) (old new : Attribute P) :
    Preserves f (updateAttribute element old new) := by
  refine preserves_reading (fun s => s.arena.attributes element) fun attributes => ?_
  split
  · exact .throw trivial
  · exact preserves_modifyArena hf _

theorem preserves_addAttribute (element : NodeId) (added : Attribute P) :
    Preserves f (addAttribute element added) :=
  preserves_reading (fun s => s.arena.attributes element) fun _ =>
    preserves_check (preserves_modifyArena hf _)

theorem preserves_removeAttribute (element : NodeId) (removed : Attribute P) :
    Preserves f (removeAttribute element removed) := by
  refine preserves_reading (fun s => s.arena.attributes element) fun attributes => ?_
  split
  · exact .throw trivial
  · exact preserves_modifyArena hf _

theorem preserves_updateText (node : NodeId) (text : String) :
    Preserves f (updateText node text) := by
  refine preserves_reading (fun s => s.arena.record node) fun r => ?_
  split
  · exact preserves_modifyArena hf _
  · exact .throw trivial

theorem preserves_apply (p : Patch P) : Preserves f (apply p) := by
  cases p with
  | addChild parent index child =>
    rw [apply]
    split
    · exact .throw trivial
    · exact preserves_insertChild hf parent index child
  | addText parent index node =>
    rw [apply]
    split
    · exact preserves_insertChild hf parent index node
    · exact .throw trivial
  | removeChild parent child => exact preserves_removeChild hf parent child.id false
  | removeText parent node => exact preserves_removeChild hf parent node true
  | replaceChild parent old new => exact preserves_replaceChild hf parent old.id new
  | reorderChildren parent order => exact preserves_reorderChildren hf parent order
  | updateAttribute element old new => exact preserves_updateAttribute hf element old new
  | addAttribute element added => exact preserves_addAttribute hf element added
  | removeAttribute element removed => exact preserves_removeAttribute hf element removed
  | updateText node text => exact preserves_updateText hf node text

theorem preserves_render (root : Node P) (handle : SurfaceHandle) :
    Preserves f (render root handle) := by
  refine .get_bind fun s => preserves_check ?_
  refine preserves_reading (fun s => s.arena.checkInsertable [] root) fun _ => ?_
  exact (preserves_modifyArena hf _).bind fun _ =>
    .modify fun s => hf.nodes s s.arena (some root.id) (some handle)

theorem preserves_applyHead (p : HeadPatch) : Preserves f (applyHead p) := by
  refine .get_bind fun s => ?_
  dsimp only
  split <;> first | exact .modify fun s => hf.head s _ | exact .throw trivial

theorem preserves_setTitle (title : String) :
    Preserves f (modify fun t => t.setTitle title : Edit Unit) :=
  .modify fun s => hf.title s title

end Unseen

theorem unseen_current : Unseen current := ⟨fun _ _ _ _ => rfl, fun _ _ => rfl, fun _ _ => rfl⟩

theorem preserves_bump (start stop : Version) : Preserves current (bump start stop) := by
  refine .get_bind fun s => preserves_check ?_
  refine preserves_check ?_
  exact .modify fun _ => rfl

end Surface

/-! ### Scenes -/

namespace Scene

variable {P : Type} {f : Surface → τ}

theorem preserves_onSurface {edit : Surface.Edit α} (h : Preserves f edit) :
    Preserves (fun s => f s.surface) (onSurface edit : Edit P α) := by
  refine ⟨fun s => ?_, fun _ _ _ _ => trivial⟩
  have hsurface := h.state s.surface
  rw [run_onSurface_eq]
  cases hedit : edit.run s.surface <;> rw [hedit] at hsurface <;> exact hsurface

theorem preserves_step [DecidableEq P] (hf : Surface.Unseen f) (step : SceneStep P) :
    Preserves (fun s => f s.surface) (Scene.step step) := by
  cases step with
  | render root => exact preserves_onSurface (Surface.preserves_render hf root _)
  | patch p => exact preserves_onSurface (Surface.preserves_apply hf p)
  | register h =>
    refine ⟨fun s => ?_, fun _ _ _ _ => trivial⟩
    rw [Scene.step, run_register_eq]
    cases s.table.register h <;> rfl
  | replace h => exact .modify fun _ => rfl
  | unregister id => exact .modify fun _ => rfl
  | unregisterTree n => exact .modify fun _ => rfl

end Scene

/-! ### Changes of what is shown -/

namespace Session

variable {Flags Model M D E X : Type} {f : Surface → τ}

/-- What of a session no change of what is shown touches, with what `f` tells of the surface. -/
def around (f : Surface → τ) (s : Session Model M D X) :
    Mailbox M × X × Option (Live Model (Response D M)) × Nat × τ :=
  (s.mailbox, s.executor, s.live, s.processed, f s.scene.surface)

theorem preserves_onScene {edit : Scene.Edit (Response D M) α}
    (h : Preserves (fun s => f s.surface) edit) :
    Preserves (around f) (onScene edit : Action Model M D X α) := by
  refine ⟨fun s => ?_, fun _ _ _ _ => trivial⟩
  have hscene := h.state s.scene
  rw [run_onScene_eq]
  cases hedit : edit.run s.scene <;> rw [hedit] at hscene <;>
    exact congrArg (fun told => (s.mailbox, s.executor, s.live, s.processed, told)) hscene

theorem preserves_onSurface {edit : Surface.Edit α} (h : Preserves f edit) :
    Preserves (around f) (onSurface edit : Action Model M D X α) :=
  preserves_onScene (Scene.preserves_onSurface h)

theorem preserves_align (previous : Option (Node (Response D M))) (fresh : Node (Response D M)) :
    Preserves (around f) (align previous fresh : Action Model M D X _) :=
  .of_ok fun _ => ⟨_, _, rfl, rfl⟩

/-- Shows a first document, but for the end of its batch. The answer is the version of the surface
before it, and the body as it was aligned. -/
def changeFirst [DecidableEq M] [DecidableEq D] (p : Program Flags Model M D E X) (model : Model) :
    Action Model M D X (Version × Node (Response D M)) := do
  let document := p.view model
  let body ← align none document.body
  let start := (← get).scene.surface.version
  onScene (Scene.run (SceneStep.ofTree body))
  onSurface (modify fun t => t.setTitle document.title)
  renderHead [] document.head
  return (start, body)

/-- Shows a document in the place of the one that is live, but for the end of its batch. -/
def changeNext [DecidableEq M] [DecidableEq D] (p : Program Flags Model M D E X)
    (live : Live Model (Response D M)) (model : Model) :
    Action Model M D X (Version × Node (Response D M)) := do
  let document := p.view model
  let body ← align (some live.body) document.body
  let start := (← get).scene.surface.version
  (Difference.patches live.body body).forM applyPatch
  if document.title ≠ live.title then
    onSurface (modify fun t => t.setTitle document.title)
  renderHead live.head document.head
  return (start, body)

/-- Ends the batch of a document, which goes live. -/
def conclude (p : Program Flags Model M D E X) (model : Model) (start : Version)
    (body : Node (Response D M)) : Action Model M D X Unit := do
  endBatch start
  commit model (p.view model) body

section Unseen

variable (hf : Surface.Unseen f)
include hf

theorem preserves_renderHead (old new : List HeadEntry) :
    Preserves (around f) (renderHead old new : Action Model M D X Unit) :=
  .forM fun p _ => preserves_onSurface (Surface.preserves_applyHead hf p)

variable [DecidableEq M] [DecidableEq D]

theorem preserves_steps (steps : List (SceneStep (Response D M))) :
    Preserves (around f) (onScene (Scene.run steps) : Action Model M D X Unit) :=
  preserves_onScene (.forM fun step _ => Scene.preserves_step hf step)

theorem preserves_applyPatch (q : Patch (Response D M)) :
    Preserves (around f) (applyPatch q : Action Model M D X Unit) := by
  have hnote : Preserves (around f) (notePatch q : Action Model M D X Unit) :=
    .modify fun s => by split <;> rfl
  exact hnote.bind fun _ => preserves_steps hf _

theorem preserves_changeFirst (p : Program Flags Model M D E X) (model : Model) :
    Preserves (around f) (changeFirst p model) := by
  refine (preserves_align none (p.view model).body).bind fun body => .get_bind fun s => ?_
  refine (preserves_steps hf _).bind fun _ => ?_
  refine (preserves_onSurface (Surface.preserves_setTitle hf _)).bind fun _ => ?_
  exact (preserves_renderHead hf _ _).bind fun _ => .pure _

theorem preserves_changeNext (p : Program Flags Model M D E X) (live : Live Model (Response D M))
    (model : Model) : Preserves (around f) (changeNext p live model) := by
  refine (preserves_align (some live.body) (p.view model).body).bind fun body =>
    .get_bind fun s => ?_
  refine (Heeds.forM fun q _ => preserves_applyPatch hf q).bind fun _ => ?_
  have hhead : Preserves (around f) (do
      renderHead live.head (p.view model).head
      return (s.scene.surface.version, body) :
        Action Model M D X (Version × Node (Response D M))) :=
    (preserves_renderHead hf _ _).bind fun _ => .pure _
  dsimp only
  split
  · exact (preserves_onSurface (Surface.preserves_setTitle hf _)).bind fun _ => hhead
  · exact hhead

end Unseen

/-! ### Whole renderings -/

/-- What of a session a rendering has nothing to do with: its mailbox, the state of its executor,
and where it is. -/
def surroundings (s : Session Model M D X) : Mailbox M × X × Url :=
  (s.mailbox, s.executor, s.scene.surface.current)

theorem preserves_conclude (p : Program Flags Model M D E X) (model : Model) (start : Version)
    (body : Node (Response D M)) :
    Preserves surroundings (conclude p model start body : Action Model M D X Unit) := by
  have hbump : Preserves (around Surface.current) (endBatch start : Action Model M D X Unit) :=
    preserves_onSurface (Surface.preserves_bump start start.next)
  exact (hbump.told fun t => (t.1, t.2.1, t.2.2.2.2)).bind fun _ => .modify fun _ => rfl

variable [DecidableEq M] [DecidableEq D]

theorem renderFirst_eq (p : Program Flags Model M D E X) (model : Model) :
    (renderFirst p model : Action Model M D X Unit)
      = changeFirst p model >>= fun r => conclude p model r.1 r.2 := by
  simp only [renderFirst, changeFirst, conclude, bind_assoc, pure_bind]

theorem renderNext_eq (p : Program Flags Model M D E X) (live : Live Model (Response D M))
    (model : Model) : (renderNext p live model : Action Model M D X Unit)
      = changeNext p live model >>= fun r => conclude p model r.1 r.2 := by
  by_cases htitle : (p.view model).title = live.title <;>
    simp only [renderNext, changeNext, conclude, bind_assoc, pure_bind, htitle, ne_eq,
      not_true_eq_false, not_false_eq_true, if_true, if_false]

theorem preserves_renderFirst (p : Program Flags Model M D E X) (model : Model) :
    Preserves surroundings (renderFirst p model) := by
  have hchange := preserves_changeFirst Surface.unseen_current p model
  rw [renderFirst_eq]
  exact (hchange.told fun t => (t.1, t.2.1, t.2.2.2.2)).bind fun _ => preserves_conclude p _ _ _

theorem preserves_renderNext (p : Program Flags Model M D E X) (live : Live Model (Response D M))
    (model : Model) : Preserves surroundings (renderNext p live model) := by
  have hchange := preserves_changeNext Surface.unseen_current p live model
  rw [renderNext_eq]
  exact (hchange.told fun t => (t.1, t.2.1, t.2.2.2.2)).bind fun _ => preserves_conclude p _ _ _

end Session

end ViewLoop
