import ViewLoop.LoopError
import ViewLoop.Surface

/-!
# Scenes

The surface together with the table of the handlers that events can reach. An event may come in
between any two changes of the two, so their order is part of the rules: a handler that leaves is
taken out of the table before the surface changes, and one that enters is put in after it. A
handler that keeps its identity gets its new payload after the surface has changed.

The smallest changes are `SceneStep`s. `SceneStep.ofPatch` says which steps a patch is made of, and
in which order.
-/

namespace ViewLoop

/-- What is shown, and what listens there. -/
structure Scene (P : Type) where
  surface : Surface
  table : Registry P := {}
  deriving Repr

/-- A change of a scene that no event can come in the middle of. -/
inductive SceneStep (P : Type) where
  | render (root : Node P)
  | patch (p : Patch P)
  | register (h : Handler P)
  | replace (h : Handler P)
  | unregister (id : HandlerId)
  | unregisterTree (n : Node P)
  deriving Repr

namespace SceneStep

variable {P : Type}

/-- The steps that register every handler of a tree, in pre-order. -/
def registrations (n : Node P) : List (SceneStep P) := n.handlers.map fun h => .register h.2

/-- The steps before an attribute leaves the surface. -/
def leaving (a : Attribute P) : List (SceneStep P) :=
  match a.handler? with
  | some h => [.unregister h.id]
  | none => []

/-- The steps after an attribute has come to the surface. -/
def entering (a : Attribute P) : List (SceneStep P) :=
  match a.handler? with
  | some h => [.register h]
  | none => []

/-- The handler that an update of an attribute only gives a new payload. -/
def retained? (old new : Attribute P) : Option (Handler P) :=
  match old.handler?, new.handler? with
  | some before, some after => if before.id = after.id then some after else none
  | _, _ => none

def ofPatch (p : Patch P) : List (SceneStep P) :=
  match p with
  | .addChild _ _ child => .patch p :: registrations child
  | .addText _ _ node => .patch p :: registrations node
  | .removeChild _ child => [.unregisterTree child, .patch p]
  | .replaceChild _ old new => .unregisterTree old :: .patch p :: registrations new
  | .updateAttribute _ old new =>
    match retained? old new with
    | some h => [.patch p, .replace h]
    | none => leaving old ++ .patch p :: entering new
  | .addAttribute _ added => .patch p :: entering added
  | .removeAttribute _ removed => leaving removed ++ [.patch p]
  | .reorderChildren .. => [.patch p]
  | .updateText .. => [.patch p]
  | .removeText .. => [.patch p]

def ofTree (root : Node P) : List (SceneStep P) := .render root :: registrations root

end SceneStep

namespace Scene

variable {P : Type}

/-- A change of a scene that may be refused. What was done before a refusal stays done. -/
abbrev Edit (P α : Type) := EStateM LoopError (Scene P) α

def onSurface {α : Type} (edit : Surface.Edit α) : Edit P α := fun s =>
  match edit.run s.surface with
  | .ok a surface => .ok a { s with surface }
  | .error cause surface => .error (.surface cause) { s with surface }

def modifyTable (f : Registry P → Registry P) : Edit P Unit :=
  modify fun s => { s with table := f s.table }

def register [DecidableEq P] (h : Handler P) : Edit P Unit := fun s =>
  match s.table.register h with
  | .ok table => .ok () { s with table }
  | .error cause => .error (.duplicateHandler cause) s

def step [DecidableEq P] : SceneStep P → Edit P Unit
  | .render root => onSurface (Surface.render root)
  | .patch p => onSurface (Surface.apply p)
  | .register h => register h
  | .replace h => modifyTable fun t => t.replace h
  | .unregister id => modifyTable fun t => t.unregister id
  | .unregisterTree n => modifyTable fun t => t.unregisterTree n

/-- Takes steps in order, up to the first that is refused. -/
def run [DecidableEq P] (steps : List (SceneStep P)) : Edit P Unit := steps.forM step

@[simp] theorem run_nil [DecidableEq P] : run ([] : List (SceneStep P)) = pure () := rfl

theorem run_cons [DecidableEq P] (s : SceneStep P) (rest : List (SceneStep P)) :
    run (s :: rest) = (do step s; run rest) := rfl

theorem run_append [DecidableEq P] (first rest : List (SceneStep P)) :
    run (first ++ rest) = (do run first; run rest) := by
  induction first with
  | nil => simp
  | cons s first ih => simp only [List.cons_append, run_cons, ih, bind_assoc]

/-! ### Runs of single changes -/

theorem run_onSurface_eq {α : Type} (edit : Surface.Edit α) (s : Scene P) :
    (onSurface edit).run s = match edit.run s.surface with
      | .ok a surface => .ok a { s with surface }
      | .error cause surface => .error (.surface cause) { s with surface } := rfl

theorem run_register_eq [DecidableEq P] (h : Handler P) (s : Scene P) :
    (register h).run s = match s.table.register h with
      | .ok table => .ok () { s with table }
      | .error cause => .error (.duplicateHandler cause) s := rfl

end Scene

end ViewLoop
