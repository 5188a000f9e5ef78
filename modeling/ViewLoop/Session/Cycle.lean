import ViewLoop.Session.Basic

/-!
# The cycle of a message

One message from end to end: the program updates its model, the view of the new model is aligned
with what is live, the differences are applied to the scene, the new model goes live, and the
command is carried out. A cycle whose rendering fails leaves the old model live and does not touch
its command.
-/

namespace ViewLoop.Session

variable {Flags Model M D E X : Type}

/-! ### Rendering -/

def align (previous : Option (Node (Response D M))) (fresh : Node (Response D M)) :
    Action Model M D X (Node (Response D M)) :=
  modifyGet fun s =>
    let r := Alignment.run previous fresh s.supply
    (r.1, { s with
      supply := r.2.supply
      warnings := s.warnings ++ r.2.warnings.map Warning.alignment })

/-- Notes a patch that is about to be applied, if patches are noted. -/
def notePatch (p : Patch (Response D M)) : Action Model M D X Unit :=
  modify fun s =>
    if s.settings.tracePatches then { s with trace := s.trace ++ [p.label] } else s

def applyPatch [DecidableEq M] [DecidableEq D] (p : Patch (Response D M)) :
    Action Model M D X Unit := do
  notePatch p
  onScene (Scene.run (SceneStep.ofPatch p))

def renderHead (old new : List HeadEntry) : Action Model M D X Unit :=
  (HeadEntry.diff old new).forM fun p => onSurface (Surface.applyHead p)

def endBatch (start : Version) : Action Model M D X Unit :=
  onSurface (Surface.bump start start.next)

def commit (model : Model) (document : Document (Response D M)) (body : Node (Response D M)) :
    Action Model M D X Unit :=
  modify fun s =>
    { s with live := some ⟨model, document.title, document.head, body⟩ }

def renderFirst [DecidableEq M] [DecidableEq D] (p : Program Flags Model M D E X)
    (model : Model) : Action Model M D X Unit := do
  let document := p.view model
  let body ← align none document.body
  let start := (← get).scene.surface.version
  onScene (Scene.run (SceneStep.ofTree body))
  onSurface (modify fun t => t.setTitle document.title)
  renderHead [] document.head
  endBatch start
  commit model document body

/-- Shows the document of a model in the place of the one that is live. -/
def renderNext [DecidableEq M] [DecidableEq D] (p : Program Flags Model M D E X)
    (live : Live Model (Response D M)) (model : Model) : Action Model M D X Unit := do
  let document := p.view model
  let body ← align (some live.body) document.body
  let start := (← get).scene.surface.version
  (Difference.patches live.body body).forM applyPatch
  if document.title ≠ live.title then
    onSurface (modify fun t => t.setTitle document.title)
  renderHead live.head document.head
  endBatch start
  commit model document body

/-! ### Commands -/

/-- The mailbox after an executor ran with a new context in it. -/
def settleExecution (b : Mailbox M) (r : Execution M X) : Mailbox M :=
  let sent := b.addContext.sendAll r.sent
  let started := r.started.foldl Mailbox.startWorker sent
  let kept := if r.retained then started else started.dropContext
  (List.replicate r.released ()).foldl (fun b _ => b.dropContext) kept

/-- Runs an effect. If it fails, the program is told. -/
def perform (p : Program Flags Model M D E X) (e : E) : Action Model M D X Unit := do
  match p.execute with
  | none => warn [.effectDropped]
  | some execute =>
    let r := execute e (← get).executor
    modify fun s => { s with executor := r.state, mailbox := settleExecution s.mailbox r }
    match r.failure with
    | none => pure ()
    | some cause => do
      warn [.effectFailed cause]
      post (p.effectFailed cause)

mutual

/-- Carries out a command. A navigation that succeeds is reported to the program before the next
command of its sequence. -/
def dispatch (p : Program Flags Model M D E X) : Command E → Action Model M D X Unit
  | .none => pure ()
  | .batch commands => dispatchAll p commands
  | .pushUrl url => do
    let next ← onSurface (Surface.pushUrl url)
    post (p.urlChanged next)
  | .replaceUrl url => do
    let next ← onSurface (Surface.replaceUrl url)
    post (p.urlChanged next)
  | .loadUrl url => do
    let _ ← onSurface (Surface.loadUrl url)
  | .effect e => perform p e

/-- Carries out commands in order, up to the first that fails. -/
def dispatchAll (p : Program Flags Model M D E X) :
    List (Command E) → Action Model M D X Unit
  | [] => pure ()
  | c :: cs => do
    dispatch p c
    dispatchAll p cs

end

/-! ### Cycles -/

/-- Starts a program: its first model is shown, and its first command is carried out. -/
def start [DecidableEq M] [DecidableEq D] (p : Program Flags Model M D E X) (flags : Flags) :
    Action Model M D X Unit := do
  if (← get).live.isSome then throw .alreadyStarted
  let (model, command) := p.init flags (← get).scene.surface.current
  renderFirst p model
  dispatch p command

def process [DecidableEq M] [DecidableEq D] (p : Program Flags Model M D E X) (m : M) :
    Action Model M D X Unit := do
  match (← get).live with
  | none => throw .notStarted
  | some live => do
    let (model, command) := p.update m live.model
    renderNext p live model
    modify fun s => { s with processed := s.processed + 1 }
    dispatch p command

end ViewLoop.Session
