import ViewLoop.Proofs.Running

/-!
# The instants of a call

A start and the processing of a message change the live nodes and the handler table in small steps,
and an event may come in between any two of them. The calls take these steps and no other ones
(`Session.run_start_eq`, `Session.run_process_eq`). At each instant, whatever the table finds
listens on a live element (`Session.sound_throughout`).
-/

namespace ViewLoop.Session

variable {Flags Model M D E X α : Type}

/-! ### What follows the steps -/

/-- What an event can meet: the handler table and the live nodes. -/
def exposed (s : Session Model M D X) : Registry (Response D M) × Arena × Option NodeId :=
  (s.scene.table, s.scene.surface.arena, s.scene.surface.root)

theorem preserves_exposed_onSurface {edit : Surface.Edit α}
    (h : ∀ f : Surface, f.SameNodes (finalState (edit.run f))) :
    Preserves exposed (onSurface edit : Action Model M D X α) := by
  refine ⟨fun s => ?_, fun _ _ _ _ => trivial⟩
  obtain ⟨harena, hroot⟩ := h s.scene.surface
  have hscene : (finalState ((onSurface edit).run s)).scene
      = { s.scene with surface := finalState (edit.run s.scene.surface) } := by
    rw [run_onSurface]
    cases edit.run s.scene.surface <;> rfl
  rw [Same, exposed, hscene, harena, hroot]
  rfl

theorem preserves_exposed_finish (p : Program Flags Model M D E X)
    (previous : Option (Live Model (Response D M))) (model : Model) (start : Version)
    (body : Node (Response D M)) :
    Preserves exposed (finish p previous model start body : Action Model M D X Unit) := by
  have hrest : Preserves exposed (do
      renderHead (previous.elim [] Live.head) (p.view model).head
      conclude p model start body : Action Model M D X Unit) := by
    refine .bind (.forM fun q _ => ?_) fun _ => .bind ?_ fun _ => .modify fun _ => rfl
    · exact preserves_exposed_onSurface fun f => Surface.sameNodes_applyHead f q
    · exact preserves_exposed_onSurface fun f => Surface.sameNodes_bump f start start.next
  rw [finish]
  split
  · exact (preserves_exposed_onSurface fun _ => ⟨rfl, rfl⟩).bind fun _ => hrest
  · exact hrest

theorem preserves_exposed_dispatch (p : Program Flags Model M D E X) (c : Command E) :
    Preserves exposed (dispatch p c : Action Model M D X Unit) := by
  refine ⟨fun s => ?_, fun _ _ _ _ => trivial⟩
  have haside := (harmless_dispatch p c s).1
  rw [Same, exposed, haside.table, haside.nodes.1, haside.nodes.2]
  rfl

/-! ### The steps -/

variable [DecidableEq M] [DecidableEq D]

/-- A start takes the steps of its tree, shows the rest of the document, and carries out the
command. -/
theorem run_start_eq (p : Program Flags Model M D E X) (flags : Flags) {s : Session Model M D X}
    (h : s.live = none) :
    let next := p.init flags s.scene.surface.current
    let body := (upcoming p none s.supply next.1).body
    (start p flags).run s = (do
      onScene (Scene.run (SceneStep.ofTree body))
      finish p none next.1 s.scene.surface.version body
      dispatch p next.2 : Action Model M D X Unit).run (aligned none (p.view next.1).body s) := by
  intro next body
  rw [run_start_of_none p flags h, run_bind_congr (run_renderFirst_eq p next.1 s), bind_assoc]

/-- A message is processed by the steps from the live tree to the next one; then the rest of the
document is shown, the message is counted, and the command is carried out. -/
theorem run_process_eq (p : Program Flags Model M D E X) (m : M) {s : Session Model M D X}
    {live : Live Model (Response D M)} (h : s.live = some live) :
    let next := p.update m live.model
    let body := (upcoming p (some live.body) s.supply next.1).body
    ∃ trace, (process p m).run s = (do
      onScene (Scene.run ((Difference.patches live.body body).flatMap SceneStep.ofPatch))
      finish p (some live) next.1 s.scene.surface.version body
      modify fun t => { t with processed := t.processed + 1 }
      dispatch p next.2 : Action Model M D X Unit).run
        { aligned (some live.body) (p.view next.1).body s with trace } := by
  intro next body
  obtain ⟨trace, hrun⟩ := run_renderNext_eq p live next.1 s
  refine ⟨trace, ?_⟩
  rw [run_process_of_some p m h, run_bind_congr hrun, bind_assoc]

/-- The first session comes to the live nodes and the handler table of the second by taking all the
steps, and the scene is sound wherever the steps are interrupted. -/
def Passes (steps : List (SceneStep (Response D M))) (s s' : Session Model M D X) : Prop :=
  ∀ before after, steps = before ++ after → ∃ here last : Scene (Response D M),
    (Scene.run before).run s.scene = .ok () here ∧ here.Sound
      ∧ (Scene.run after).run here = .ok () last ∧ last.Sound
      ∧ s'.scene.table = last.table ∧ last.surface.SameNodes s'.scene.surface

theorem Rendered.interrupted {steps : List (SceneStep (Response D M))}
    {live : Live Model (Response D M)} {s s' : Session Model M D X}
    (h : Rendered steps live s s') : Passes steps s s' := by
  rintro before after rfl
  obtain ⟨last, hsafe, htable, hnodes⟩ := h.passes
  obtain ⟨here, hbefore, hafter⟩ := hsafe.split
  exact ⟨here, last, hbefore.run_eq, hafter.sound_start, hafter.run_eq, hsafe.sound_end, htable,
    hnodes⟩

variable {p : Program Flags Model M D E X}

/-- A running session is sound at each instant: between calls, and between any two steps that a
start or the processing of a message takes. These calls are the steps, and after them nothing that
touches live nodes or handlers. -/
theorem sound_throughout (hp : p.Admissible) :
    (∀ (settings : Settings) (url : Url) (executor : X) (flags : Flags),
      let s : Session Model M D X := fresh settings url executor
      let next := p.init flags url
      let body := (upcoming p none s.supply next.1).body
      let steps := SceneStep.ofTree body
      (start p flags).run s = (do
          onScene (Scene.run steps)
          finish p none next.1 s.scene.surface.version body
          dispatch p next.2 : Action Model M D X Unit).run (aligned none (p.view next.1).body s)
        ∧ Passes steps s (finalState ((start p flags).run s)))
    ∧ (∀ s : Session Model M D X, Running p s → s.scene.Sound ∧ ∃ live, s.live = some live
      ∧ ∀ m : M,
        let next := p.update m live.model
        let body := (upcoming p (some live.body) s.supply next.1).body
        let steps := (Difference.patches live.body body).flatMap SceneStep.ofPatch
        (∃ trace, (process p m).run s = (do
            onScene (Scene.run steps)
            finish p (some live) next.1 s.scene.surface.version body
            modify fun t => { t with processed := t.processed + 1 }
            dispatch p next.2 : Action Model M D X Unit).run
              { aligned (some live.body) (p.view next.1).body s with trace })
          ∧ Passes steps s (finalState ((process p m).run s)))
    ∧ (∀ previous model start body,
        Preserves exposed (finish p previous model start body : Action Model M D X Unit))
    ∧ ∀ c, Preserves exposed (dispatch p c : Action Model M D X Unit) := by
  refine ⟨?_, ?_, preserves_exposed_finish p, preserves_exposed_dispatch p⟩
  · exact fun settings url executor flags =>
      ⟨run_start_eq p flags rfl, (rendered_start hp settings url executor flags).interrupted⟩
  · intro s hs
    obtain ⟨live, hcurrent⟩ := hs.current hp
    have hlive := hcurrent.presents.live_eq
    exact ⟨hcurrent.presents.inStep.backed.sound, live, hlive, fun m =>
      ⟨run_process_eq p m hlive, (rendered_process hp hcurrent.presents m).interrupted⟩⟩

/-- A button moves into a box. -/
theorem sound_throughout_of_moving :
    let p : Program Unit Bool Unit Empty Empty Unit := {
      init := fun _ _ => (false, .none)
      update := fun _ moved => (!moved, .none)
      view := fun moved => {
        title := "box"
        body :=
          let button := .element (.keyed "button") "button"
            [.handler ⟨"click", .invalid, .message ()⟩] []
          let box := fun inside => .element (.keyed "box") "div" [] inside
          .element (.keyed "page") "main" [] (if moved then [box [button]] else [button, box []]) }
      urlChanged := fun _ => ()
      effectFailed := fun _ => ()
      execute := none }
    let s := finalState ((start p ()).run (fresh {} { scheme := "app", path := .segments [] } ()))
    p.Admissible ∧ ∃ live, s.live = some live
      ∧ Passes ((Difference.patches live.body
          (upcoming p (some live.body) s.supply (!live.model)).body).flatMap SceneStep.ofPatch) s
        (finalState ((process p ()).run s)) := by
  intro p s
  have hp : p.Admissible := fun moved => by cases moved <;> decide
  obtain ⟨-, live, hlive, hpasses⟩ := (sound_throughout hp).2.1 s (.start _ _ _ _)
  exact ⟨hp, live, hlive, (hpasses ()).2⟩

end ViewLoop.Session
