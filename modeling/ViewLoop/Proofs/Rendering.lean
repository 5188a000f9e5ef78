import ViewLoop.Proofs.Aligned
import ViewLoop.Proofs.Commands
import ViewLoop.Proofs.HeadChanges
import ViewLoop.Proofs.SceneCourse
import ViewLoop.Proofs.Surroundings

/-!
# Renderings

A session presents its live document if the scene is in step with it. Showing the first document
and showing the next one in its place both succeed, whatever the documents are, and the session
presents the new document afterwards (`Session.run_renderFirst`, `Session.run_renderNext`). On the
way the scene takes the steps of the change safely.
-/

namespace ViewLoop

/-- What is asked of a page: its body is admissible, and no key occurs twice in its head. -/
structure Document.Admissible {P : Type} (d : Document P) : Prop where
  body : d.body.Admissible
  head : (d.head.map HeadEntry.key).Nodup

instance {P : Type} (d : Document P) : Decidable d.Admissible :=
  decidable_of_iff (d.body.Admissible ∧ (d.head.map HeadEntry.key).Nodup)
    ⟨fun h => ⟨h.1, h.2⟩, fun h => ⟨h.body, h.head⟩⟩

namespace Session

variable {Flags Model M D E X α β : Type} {s : Session Model M D X}

/-! ### Single actions -/

theorem run_onScene {edit : Scene.Edit (Response D M) α} {a : α} {scene : Scene (Response D M)}
    (h : edit.run s.scene = .ok a scene) : (onScene edit).run s = .ok a { s with scene } := by
  rw [run_onScene_eq, h]

theorem run_onSurface_of_ok {edit : Surface.Edit α} {a : α} {f : Surface}
    (h : edit.run s.scene.surface = .ok a f) :
    (onSurface edit).run s = .ok a { s with scene := { s.scene with surface := f } } := by
  rw [run_onSurface, h]

theorem run_forM_onSurface {edit : β → Surface.Edit Unit} {l : List β} {f : Surface}
    (h : (l.forM edit).run s.scene.surface = .ok () f) :
    (l.forM fun b => onSurface (edit b)).run s
      = .ok () { s with scene := { s.scene with surface := f } } := by
  induction l generalizing s with
  | nil =>
    obtain ⟨-, rfl⟩ := EStateM.Result.ok.inj h
    rfl
  | cons b l ih =>
    cases hb : (edit b).run s.scene.surface with
    | ok u f₁ =>
      rw [run_forM_cons_of_ok hb] at h
      have hfirst : (onSurface (edit b)).run s
          = .ok u { s with scene := { s.scene with surface := f₁ } } := run_onSurface_of_ok hb
      have hrest := ih (s := { s with scene := { s.scene with surface := f₁ } }) h
      exact (run_bind_of_ok hfirst _).trans hrest
    | error e f₁ =>
      have herror : ((b :: l).forM edit).run s.scene.surface = .error e f₁ :=
        run_bind_of_error hb _
      rw [herror] at h
      exact nomatch h

/-- The session after an alignment of the given document. -/
def aligned (previous : Option (Node (Response D M))) (fresh : Node (Response D M))
    (s : Session Model M D X) : Session Model M D X :=
  { s with
    supply := (Alignment.run previous fresh s.supply).2.supply
    warnings := s.warnings
      ++ (Alignment.run previous fresh s.supply).2.warnings.map Warning.alignment }

theorem run_align (previous : Option (Node (Response D M))) (fresh : Node (Response D M)) :
    (align previous fresh).run s
      = .ok (Alignment.run previous fresh s.supply).1 (aligned previous fresh s) := rfl

theorem run_notePatch (p : Patch (Response D M)) (s : Session Model M D X) :
    ∃ tr, (notePatch p).run s = .ok () { s with trace := tr } := by
  rw [notePatch, run_modify]
  split
  · exact ⟨_, rfl⟩
  · exact ⟨s.trace, rfl⟩

theorem run_endBatch (s : Session Model M D X) :
    (endBatch s.scene.surface.version).run s = .ok () { s with scene := { s.scene with
      surface := { s.scene.surface with version := s.scene.surface.version.next } } } := by
  refine run_onSurface_of_ok ?_
  rw [Surface.bump, run_get_bind]
  simp only [ne_eq, not_true_eq_false, if_false]
  rfl

/-- At the version that its batch started with, the end of a rendering does not fail. -/
theorem run_conclude (p : Program Flags Model M D E X) (model : Model)
    (body : Node (Response D M)) (s : Session Model M D X) :
    (conclude p model s.scene.surface.version body).run s
      = .ok () { s with
        scene := { s.scene with surface := { s.scene.surface with
          version := s.scene.surface.version.next } }
        live := some ⟨model, (p.view model).title, (p.view model).head, body⟩ } :=
  run_bind_of_ok (run_endBatch s) _

/-! ### The end of a rendering -/

/-- What a rendering does once live nodes and handlers are changed: it sets a title that is another
one, changes the head, and ends its batch with the document live. -/
def finish (p : Program Flags Model M D E X) (previous : Option (Live Model (Response D M)))
    (model : Model) (start : Version) (body : Node (Response D M)) :
    Action Model M D X Unit := do
  if previous.map Live.title ≠ some (p.view model).title then
    onSurface (modify fun t => t.setTitle (p.view model).title)
  renderHead (previous.elim [] Live.head) (p.view model).head
  conclude p model start body

/-- On a surface with the title and the head of the previous document, the rest of the next one is
shown. -/
theorem run_finish {p : Program Flags Model M D E X} {model : Model}
    (hd : (p.view model).Admissible) {previous : Option (Live Model (Response D M))}
    (htitle : ∀ live ∈ previous, s.scene.surface.title = live.title)
    (hhead : s.scene.surface.head.Perm (previous.elim [] Live.head))
    (hkeys : ((previous.elim [] Live.head).map HeadEntry.key).Nodup) {start : Version}
    (hstart : s.scene.surface.version = start) (body : Node (Response D M)) :
    ∃ f, (finish p previous model start body).run s = .ok () { s with
          scene := { s.scene with surface := f }
          live := some ⟨model, (p.view model).title, (p.view model).head, body⟩ }
      ∧ s.scene.surface.SameNodes f ∧ f.title = (p.view model).title
      ∧ f.head.Perm (p.view model).head := by
  subst hstart
  let titled := s.scene.surface.setTitle (p.view model).title
  let t : Session Model M D X := { s with scene := { s.scene with surface := titled } }
  obtain ⟨last, hrun, hlast⟩ := Surface.applyHead_diff (s := titled) hkeys hd.head hhead
  have hrest : (do
      renderHead (previous.elim [] Live.head) (p.view model).head
      conclude p model s.scene.surface.version body : Action Model M D X Unit).run t
      = .ok () { s with
        scene := { s.scene with
          surface := { titled with head := last, version := s.scene.surface.version.next } }
        live := some ⟨model, (p.view model).title, (p.view model).head, body⟩ } :=
    (run_bind_of_ok (run_forM_onSurface (s := t) hrun) _).trans (run_conclude p model body _)
  refine ⟨{ titled with head := last, version := s.scene.surface.version.next }, ?_, ⟨rfl, rfl⟩, rfl,
    hlast⟩
  rw [← hrest, finish]
  by_cases hsame : previous.map Live.title = some (p.view model).title
  · -- the title that is not set is there already
    obtain ⟨live, hlive, heq⟩ := Option.map_eq_some_iff.mp hsame
    have hset : titled = s.scene.surface := by
      rw [← htitle live hlive] at heq
      exact congrArg (fun title => { s.scene.surface with title }) heq.symm
    have ht : t = s := congrArg (fun f => { s with scene := { s.scene with surface := f } }) hset
    rw [if_neg (not_not_intro hsame), ht]
  · rw [if_pos hsame]
    rfl

/-! ### Presented documents -/

/-- The live document is on the scene: the scene is in step with its body, and the surface has its
title and its head entries. The supply has been used for it, so that what is drawn next is new. -/
structure Presents (s : Session Model M D X) (live : Live Model (Response D M)) : Prop where
  live_eq : s.live = some live
  inStep : s.scene.InStep live.body
  grounded : Alignment.Grounded s.supply live.body
  title : s.scene.surface.title = live.title
  head : s.scene.surface.head.Perm live.head
  keys : (live.head.map HeadEntry.key).Nodup

/-- What goes live when the document of a model is shown. -/
def upcoming (p : Program Flags Model M D E X) (previous : Option (Node (Response D M)))
    (supply : IdSupply) (model : Model) : Live Model (Response D M) :=
  ⟨model, (p.view model).title, (p.view model).head,
    (Alignment.run previous (p.view model).body supply).1⟩

theorem Presents.of_aside {s' : Session Model M D X} {live : Live Model (Response D M)}
    (h : s.Presents live) (ha : s.Aside s') : s'.Presents live :=
  ⟨ha.live.trans h.live_eq, h.inStep.of_sameNodes ha.nodes ha.table, ha.supply ▸ h.grounded,
    ha.title.trans h.title, ha.head ▸ h.head, h.keys⟩

variable [DecidableEq M] [DecidableEq D]

/-- The first session has come to the second by showing the document of the model: it presents it,
and its scene has taken the steps safely. What follows the steps leaves the live nodes and the
handler table alone. -/
structure Rendered (steps : List (SceneStep (Response D M))) (live : Live Model (Response D M))
    (s s' : Session Model M D X) : Prop where
  presents : s'.Presents live
  isOpen : s'.mailbox.isOpen = s.mailbox.isOpen
  passes : ∃ scene, Scene.Safe s.scene steps scene ∧ s'.scene.table = scene.table
    ∧ scene.surface.SameNodes s'.scene.surface

theorem Rendered.of_aside {steps : List (SceneStep (Response D M))}
    {live : Live Model (Response D M)} {s₁ s' : Session Model M D X}
    (h : Rendered steps live s s₁) (ha : s₁.Aside s') : Rendered steps live s s' := by
  obtain ⟨scene, hsafe, htable, hnodes⟩ := h.passes
  exact ⟨h.presents.of_aside ha, ha.isOpen.trans h.isOpen, scene, hsafe, ha.table.trans htable,
    ⟨ha.nodes.1.trans hnodes.1, ha.nodes.2.trans hnodes.2⟩⟩

/-! ### The steps of a rendering -/

/-- To apply patches one after another is to take all their steps, but for the notes. -/
theorem run_forM_applyPatch (ps : List (Patch (Response D M))) (s : Session Model M D X) :
    ∃ trace, (ps.forM applyPatch).run s
      = (onScene (Scene.run (ps.flatMap SceneStep.ofPatch))).run { s with trace } := by
  induction ps generalizing s with
  | nil => exact ⟨s.trace, rfl⟩
  | cons p ps ih =>
    obtain ⟨trace, hnote⟩ := run_notePatch p s
    have happly : (applyPatch p).run s
        = (onScene (Scene.run (SceneStep.ofPatch p))).run { s with trace } := by
      rw [applyPatch, run_bind_of_ok hnote]
    rw [List.flatMap_cons, Scene.run_append]
    rw [run_onScene_eq] at happly
    cases hfirst : (Scene.run (SceneStep.ofPatch p)).run s.scene with
    | ok u scene =>
      rw [hfirst] at happly
      obtain ⟨trace', hrest⟩ := ih { s with scene, trace }
      refine ⟨trace', ?_⟩
      rw [run_forM_cons_of_ok happly, hrest, run_onScene_eq, run_onScene_eq, run_bind_of_ok hfirst]
    | error e scene =>
      rw [hfirst] at happly
      have hall : ((p :: ps).forM applyPatch).run s = .error e { s with scene, trace } :=
        run_bind_of_error happly _
      refine ⟨trace, ?_⟩
      rw [hall, run_onScene_eq, run_bind_of_error hfirst]

/-- A first rendering takes the steps of its tree, and no other ones. -/
theorem run_renderFirst_eq (p : Program Flags Model M D E X) (model : Model)
    (s : Session Model M D X) :
    (renderFirst p model).run s = (do
      onScene (Scene.run (SceneStep.ofTree (upcoming p none s.supply model).body))
      finish p none model s.scene.surface.version (upcoming p none s.supply model).body :
        Action Model M D X Unit).run (aligned none (p.view model).body s) := by
  rw [renderFirst, run_bind_of_ok (run_align _ _), run_get_bind]
  rfl

/-- A rendering takes the steps of the patches between the live tree and the next one, and no other
ones. -/
theorem run_renderNext_eq (p : Program Flags Model M D E X) (live : Live Model (Response D M))
    (model : Model) (s : Session Model M D X) :
    ∃ trace, (renderNext p live model).run s = (do
      onScene (Scene.run ((Difference.patches live.body
        (upcoming p (some live.body) s.supply model).body).flatMap SceneStep.ofPatch))
      finish p (some live) model s.scene.surface.version
        (upcoming p (some live.body) s.supply model).body :
        Action Model M D X Unit).run
          { aligned (some live.body) (p.view model).body s with trace } := by
  obtain ⟨trace, hpatches⟩ := run_forM_applyPatch
    (Difference.patches live.body (upcoming p (some live.body) s.supply model).body)
    (aligned (some live.body) (p.view model).body s)
  refine ⟨trace, ?_⟩
  rw [renderNext, run_bind_of_ok (run_align _ _), run_get_bind]
  refine (run_bind_congr hpatches _).trans (congrArg (fun x => EStateM.run x _) ?_)
  have htitle : (some live).map Live.title ≠ some (p.view model).title
      ↔ (p.view model).title ≠ live.title := (not_congr Option.some_inj).trans ne_comm
  simp only [finish, htitle]
  rfl

/-! ### Calls -/

theorem run_start_of_none (p : Program Flags Model M D E X) (flags : Flags)
    (h : s.live = none) :
    (start p flags).run s = (do
      renderFirst p (p.init flags s.scene.surface.current).1
      dispatch p (p.init flags s.scene.surface.current).2 : Action Model M D X Unit).run s := by
  rw [start, run_get_bind, h]
  rfl

theorem run_process_of_some (p : Program Flags Model M D E X) (m : M)
    {live : Live Model (Response D M)} (h : s.live = some live) :
    (process p m).run s = (do
      renderNext p live (p.update m live.model).1
      modify fun t => { t with processed := t.processed + 1 }
      dispatch p (p.update m live.model).2 : Action Model M D X Unit).run s := by
  rw [process, run_get_bind, h]

/-! ### Whole renderings -/

/-- A rendering comes to its end if the scene takes the steps. -/
theorem exists_rendered {p : Program Flags Model M D E X} {model : Model}
    (hd : (p.view model).Admissible) (previous : Option (Live Model (Response D M)))
    (htitle : ∀ live ∈ previous, s.scene.surface.title = live.title)
    (hhead : s.scene.surface.head.Perm (previous.elim [] Live.head))
    (hkeys : ((previous.elim [] Live.head).map HeadEntry.key).Nodup)
    {steps : List (SceneStep (Response D M))} {scene : Scene (Response D M)}
    (hsafe : Scene.Safe s.scene steps scene)
    (hnodes : s.scene.surface.NodesOnly scene.surface) {body : Node (Response D M)}
    (hin : scene.InStep body) {t : Session Model M D X} (hscene : t.scene = s.scene)
    (hmailbox : t.mailbox = s.mailbox) (hground : Alignment.Grounded t.supply body) :
    ∃ s', (do
        onScene (Scene.run steps)
        finish p previous model s.scene.surface.version body : Action Model M D X Unit).run t
          = .ok () s'
      ∧ Rendered steps ⟨model, (p.view model).title, (p.view model).head, body⟩ s s' := by
  obtain ⟨a, r, handle, hsurface⟩ := hnodes
  have hsteps : (onScene (Scene.run steps)).run t = .ok () { t with scene } :=
    run_onScene (hscene ▸ hsafe.run_eq)
  have hkept : scene.surface.title = s.scene.surface.title
      ∧ scene.surface.head = s.scene.surface.head
      ∧ scene.surface.version = s.scene.surface.version := by
    rw [hsurface]
    exact ⟨rfl, rfl, rfl⟩
  obtain ⟨f, hrun, hsame, hset, hlast⟩ := run_finish (s := { t with scene }) hd
    (fun live hlive => hkept.1.trans (htitle live hlive)) (hkept.2.1 ▸ hhead) hkeys hkept.2.2 body
  refine ⟨_, (run_bind_of_ok hsteps _).trans hrun, ?_, hmailbox ▸ rfl, scene, hsafe, rfl, hsame⟩
  exact ⟨rfl, hin.of_sameNodes hsame rfl, hground, hset, hlast, hd.head⟩

variable {p : Program Flags Model M D E X} {model : Model}

/-- The first document is shown on an empty scene. -/
theorem run_renderFirst (hd : (p.view model).Admissible) (hsurface : s.scene.surface.IsEmpty)
    (hhead : s.scene.surface.head = []) (htable : ∀ id, s.scene.table.get? id = none) :
    ∃ s', (renderFirst p model).run s = .ok () s'
      ∧ Rendered (SceneStep.ofTree (upcoming p none s.supply model).body)
        (upcoming p none s.supply model) s s' := by
  have hground := Alignment.grounded_run none s.supply hd.body fun _ hp => nomatch hp
  obtain ⟨scene, hsafe, hnodes, hin⟩ :=
    Scene.exists_safe_ofTree hsurface htable hground.tidy hground.marks
  rw [run_renderFirst_eq]
  exact exists_rendered hd none (by simp) (hhead ▸ .refl _) List.nodup_nil hsafe
    hnodes hin rfl rfl hground

/-- The next document is shown in the place of the live one. -/
theorem run_renderNext (hd : (p.view model).Admissible) {live : Live Model (Response D M)}
    (h : s.Presents live) :
    ∃ s', (renderNext p live model).run s = .ok () s'
      ∧ Rendered ((Difference.patches live.body
          (upcoming p (some live.body) s.supply model).body).flatMap SceneStep.ofPatch)
        (upcoming p (some live.body) s.supply model) s s' := by
  have hground := Alignment.grounded_run (some live.body) s.supply hd.body fun _ hp =>
    Option.some.inj hp ▸ h.grounded
  obtain ⟨scene, hsafe, hnodes, hin⟩ := h.inStep.take_patches hground.tidy hground.marks
    (Alignment.revision_run hd.body h.grounded)
  obtain ⟨trace, hrun⟩ := run_renderNext_eq p live model s
  rw [hrun]
  exact exists_rendered hd (some live) (fun _ hlive => Option.some.inj hlive ▸ h.title)
    h.head h.keys hsafe hnodes hin rfl rfl hground

end Session

end ViewLoop
