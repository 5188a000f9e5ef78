import ViewLoop.Proofs.Heeding
import ViewLoop.Proofs.Rendering

/-!
# Bounds on a cycle

What the parts of a cycle may change, whether they succeed or fail. Between an alignment and the
commit nothing but the scene is touched, and the handler table only gets handlers that the steps put
there (`Session.confined_applyPatch`); a command touches neither supply nor what is live. No part takes a
message from the queue (`Session.Confined`).
-/

namespace ViewLoop

/-- The failures with which the loop gives up after it has taken a message. -/
def LoopError.GivesUp : LoopError → Prop
  | notStarted => True
  | messageLimit _ => True
  | surface _ => False
  | duplicateHandler _ => False
  | alreadyStarted => False

/-! ### Scenes -/

/-- The handlers that a step puts into the table. -/
def SceneStep.puts {P : Type} : SceneStep P → List (Handler P)
  | register h => [h]
  | replace h => [h]
  | render _ => []
  | patch _ => []
  | unregister _ => []
  | unregisterTree _ => []

namespace Scene

variable {P : Type} {hs : List (Handler P)}

/-- What is in the second table was in the first, or is one of the handlers. -/
def Draws (hs : List (Handler P)) (s s' : Scene P) : Prop :=
  ∀ id h, s'.table.get? id = some h → s.table.get? id = some h ∨ h ∈ hs ∧ h.id = id

instance : IsPreorder (Scene P) (Draws hs) where
  refl _ _ _ h := Or.inl h
  trans _ _ _ h h' id k hk := (h' id k hk).elim (h id k) Or.inr

theorem draws_replace {s : Scene P} {h : Handler P} (hh : h ∈ hs) :
    Draws hs s { s with table := s.table.replace h } := by
  intro id k hk
  rw [Registry.get?_replace] at hk
  split at hk
  · obtain rfl := Option.some.inj hk
    exact Or.inr ⟨hh, by symm; assumption⟩
  · exact Or.inl hk

theorem draws_of_get? {s : Scene P} {r : Registry P}
    (h : ∀ id, r.get? id = none ∨ r.get? id = s.table.get? id) :
    Draws hs s { s with table := r } := by
  intro id k hk
  rcases h id with hnone | hsame
  · exact absurd (hnone.symm.trans hk) (by simp)
  · exact Or.inl (hsame ▸ hk)

theorem heeds_onSurface {α : Type} (edit : Surface.Edit α) :
    Heeds (Draws hs) (fun e => ¬e.GivesUp) (onSurface edit : Edit P α) := by
  refine ⟨fun s => ?_, fun s e s' he => ?_⟩
  · rw [run_onSurface_eq]
    cases edit.run s.surface <;> exact fun _ _ h => Or.inl h
  · rw [run_onSurface_eq] at he
    cases hedit : edit.run s.surface <;> rw [hedit] at he <;> cases he
    exact id

theorem heeds_register [DecidableEq P] {h : Handler P} (hh : h ∈ hs) :
    Heeds (Draws hs) (fun e => ¬e.GivesUp) (register h) := by
  refine ⟨fun s => ?_, fun s e s' he => ?_⟩
  · rw [run_register_eq, Registry.register]
    cases s.table.get? h.id with
    | none => exact draws_replace hh
    | some other =>
      by_cases hsame : other = h <;> simp only [hsame, ↓reduceIte] <;> exact refl_of (Draws hs) s
  · rw [run_register_eq] at he
    cases hregister : s.table.register h <;> rw [hregister] at he <;> cases he
    exact id

theorem heeds_step [DecidableEq P] {step : SceneStep P} (hputs : step.puts ⊆ hs) :
    Heeds (Draws hs) (fun e => ¬e.GivesUp) (Scene.step step) := by
  cases step with
  | render root => exact heeds_onSurface _
  | patch p => exact heeds_onSurface _
  | register h => exact heeds_register (hputs List.mem_cons_self)
  | replace h => exact .modify fun s => draws_replace (hputs List.mem_cons_self)
  | unregister id =>
    refine .modify fun s => draws_of_get? fun x => ?_
    rw [Registry.get?_unregister]
    split
    · exact Or.inl rfl
    · exact Or.inr rfl
  | unregisterTree n =>
    refine .modify fun s => draws_of_get? fun x => ?_
    rw [Registry.get?_unregisterTree]
    split
    · exact Or.inl rfl
    · exact Or.inr rfl

theorem heeds_run [DecidableEq P] {steps : List (SceneStep P)}
    (hputs : ∀ step ∈ steps, step.puts ⊆ hs) :
    Heeds (Draws hs) (fun e => ¬e.GivesUp) (Scene.run steps) :=
  .forM fun step hstep => heeds_step (hputs step hstep)

theorem Clears.puts {before : List (SceneStep P)} {out : List HandlerId} (h : Clears before out) :
    ∀ step ∈ before, step.puts = [] := by
  cases h <;> simp [SceneStep.puts]

theorem puts_ofPatch (p : Patch P) :
    ∀ step ∈ SceneStep.ofPatch p, step.puts ⊆ p.incoming.map Prod.snd := by
  rcases ofPatch_cases p with ⟨x, j, h, rfl, -, hsteps⟩ | ⟨before, hclears, hsteps⟩
  · rw [hsteps]
    simp [SceneStep.puts, Patch.incoming, Attribute.handler?]
  · rw [hsteps]
    intro step hstep
    rcases List.mem_append.mp hstep with hbefore | hrest
    · rw [hclears.puts step hbefore]
      exact List.nil_subset _
    · rcases List.mem_cons.mp hrest with rfl | hregister
      · exact List.nil_subset _
      · obtain ⟨k, hk, rfl⟩ := List.mem_map.mp hregister
        intro h hh
        obtain rfl := List.mem_singleton.mp hh
        exact List.mem_map_of_mem hk

theorem puts_ofTree (root : Node P) :
    ∀ step ∈ SceneStep.ofTree root, step.puts ⊆ root.handlers.map Prod.snd := by
  intro step hstep
  rcases List.mem_cons.mp hstep with rfl | hregister
  · exact List.nil_subset _
  · obtain ⟨k, hk, rfl⟩ := List.mem_map.mp hregister
    intro h hh
    obtain rfl := List.mem_singleton.mp hh
    exact List.mem_map_of_mem hk

end Scene

/-! ### Sessions -/

namespace Session

variable {Flags Model M D E X α : Type} {hs : List (Handler (Response D M))}
  {next : Live Model (Response D M)}

/-- The supply is the same, what is live is the same or goes live with `next`, the handler table has
got some of the handlers at most, and what was in the queue still waits, before what was added. -/
structure Confined (hs : List (Handler (Response D M))) (next : Live Model (Response D M))
    (s s' : Session Model M D X) : Prop where
  supply : s'.supply = s.supply
  live : s'.live = s.live ∨ s'.live = some next
  table : s.scene.Draws hs s'.scene
  queue : s.mailbox.queue <+: s'.mailbox.queue

/-- Only the scene and the mailbox of the second session are other ones. -/
theorem Confined.of_live {s s' : Session Model M D X} (hsupply : s'.supply = s.supply)
    (hlive : s'.live = s.live) (htable : s.scene.Draws hs s'.scene)
    (hqueue : s.mailbox.queue <+: s'.mailbox.queue) : Confined hs next s s' :=
  ⟨hsupply, Or.inl hlive, htable, hqueue⟩

instance : IsPreorder (Session Model M D X) (Confined hs next) where
  refl s := .of_live rfl rfl (refl_of (Scene.Draws hs) s.scene) (List.prefix_refl _)
  trans _ _ _ h h' := by
    refine ⟨h'.supply.trans h.supply, ?_, trans_of (Scene.Draws hs) h.table h'.table,
      h.queue.trans h'.queue⟩
    rcases h'.live with hsame | hnext
    · rw [hsame]
      exact h.live
    · exact Or.inr hnext

/-- However the action ends, it keeps the bounds, and it does not fail as if it had taken a
message. -/
abbrev Confines (hs : List (Handler (Response D M))) (next : Live Model (Response D M))
    (x : Action Model M D X α) : Prop :=
  Heeds (Confined hs next) (fun e => ¬e.GivesUp) x

theorem confines_onScene {edit : Scene.Edit (Response D M) α}
    (h : Heeds (Scene.Draws hs) (fun e => ¬e.GivesUp) edit) :
    Confines hs next (onScene edit : Action Model M D X α) := by
  refine ⟨fun s => ?_, fun s e s' he => ?_⟩
  · have hscene := h.state s.scene
    rw [run_onScene_eq]
    cases hedit : edit.run s.scene <;> rw [hedit] at hscene <;>
      exact .of_live rfl rfl hscene (List.prefix_refl _)
  · rw [run_onScene_eq] at he
    cases hedit : edit.run s.scene <;> rw [hedit] at he <;> cases he
    exact h.failure _ _ _ hedit

theorem confines_onSurface (edit : Surface.Edit α) :
    Confines hs next (onSurface edit : Action Model M D X α) :=
  confines_onScene (Scene.heeds_onSurface edit)

/-! ### Commands -/

theorem confines_post (m : M) : Confines hs next (post m : Action Model M D X Unit) :=
  .modify fun s =>
    .of_live rfl rfl (refl_of (Scene.Draws hs) s.scene) (List.prefix_append s.mailbox.queue [m])

theorem confines_warn (ws : List Warning) :
    Confines hs next (warn ws : Action Model M D X Unit) :=
  .modify fun s => .of_live rfl rfl (refl_of (Scene.Draws hs) s.scene) (List.prefix_refl _)

theorem queue_settleExecution (b : Mailbox M) (r : Execution M X) :
    b.queue <+: (settleExecution b r).queue := by
  rw [queue_settleExecution_eq]
  exact List.prefix_append _ _

theorem confines_perform (p : Program Flags Model M D E X) (e : E) :
    Confines hs next (perform p e : Action Model M D X Unit) := by
  rw [perform]
  split
  · exact confines_warn _
  · refine .get_bind fun s => .bind ?_ fun _ => ?_
    · exact .modify fun t =>
        .of_live rfl rfl (refl_of (Scene.Draws hs) t.scene) (queue_settleExecution _ _)
    · split
      · exact .pure ()
      · exact (confines_warn _).bind fun _ => confines_post _

theorem confines_dispatch (p : Program Flags Model M D E X) (c : Command E) :
    Confines hs next (dispatch p c : Action Model M D X Unit) :=
  heeds_dispatch (fun _ edit _ => confines_onSurface edit) confines_post (confines_perform p) c

/-! ### Rendering -/

theorem confines_renderHead (old new : List HeadEntry) :
    Confines hs next (renderHead old new : Action Model M D X Unit) :=
  .forM fun _ _ => confines_onSurface _

theorem confines_commit (model : Model) (d : Document (Response D M))
    (body : Node (Response D M)) :
    Confines hs ⟨model, d.title, d.head, body⟩ (commit model d body : Action Model M D X Unit) :=
  .modify fun s => ⟨rfl, Or.inr rfl, refl_of (Scene.Draws hs) s.scene, List.prefix_refl _⟩

variable [DecidableEq M] [DecidableEq D] {p : Program Flags Model M D E X}
  {s : Session Model M D X} {live : Live Model (Response D M)} {model : Model}

theorem confines_applyPatch {q : Patch (Response D M)} (hq : q.incoming.map Prod.snd ⊆ hs) :
    Confines hs next (applyPatch q : Action Model M D X Unit) := by
  refine .bind (.of_ok fun s => ?_) fun _ => confines_onScene (Scene.heeds_run ?_)
  · obtain ⟨tr, hrun⟩ := run_notePatch q s
    exact ⟨(), _, hrun, .of_live rfl rfl (refl_of (Scene.Draws hs) s.scene) (List.prefix_refl _)⟩
  · exact fun step hstep => List.Subset.trans (Scene.puts_ofPatch q step hstep) hq

/-- A rendering is an alignment, and after it an action that keeps the bounds. -/
theorem exists_confines_renderFirst
    (hhs : (upcoming p none s.supply model).body.handlers.map Prod.snd ⊆ hs) :
    ∃ rest : Action Model M D X Unit, Confines hs (upcoming p none s.supply model) rest
      ∧ (renderFirst p model).run s = rest.run (aligned none (p.view model).body s) := by
  refine ⟨_, ?_, run_bind_of_ok (run_align none (p.view model).body) _⟩
  have hputs : ∀ step ∈ SceneStep.ofTree (upcoming p none s.supply model).body, step.puts ⊆ hs :=
    fun step hstep => List.Subset.trans (Scene.puts_ofTree _ step hstep) hhs
  refine .get_bind fun t => .bind (confines_onScene (Scene.heeds_run hputs)) fun _ => ?_
  refine (confines_onSurface _).bind fun _ => (confines_renderHead _ _).bind fun _ => ?_
  exact (confines_onSurface _).bind fun _ => confines_commit _ _ _

theorem exists_confines_renderNext
    (hhs : ∀ q ∈ Difference.patches live.body (upcoming p (some live.body) s.supply model).body,
      q.incoming.map Prod.snd ⊆ hs) :
    ∃ rest : Action Model M D X Unit, Confines hs (upcoming p (some live.body) s.supply model) rest
      ∧ (renderNext p live model).run s
        = rest.run (aligned (some live.body) (p.view model).body s) := by
  refine ⟨_, ?_, run_bind_of_ok (run_align (some live.body) (p.view model).body) _⟩
  refine .get_bind fun t => .bind (.forM fun q hq => confines_applyPatch (hhs q hq)) fun _ => ?_
  have htail : ∀ start : Version, Confines hs (upcoming p (some live.body) s.supply model) (do
      renderHead live.head (p.view model).head
      endBatch start
      commit model (p.view model) (upcoming p (some live.body) s.supply model).body :
        Action Model M D X Unit) := fun start =>
    (confines_renderHead _ _).bind fun _ => (confines_onSurface _).bind fun _ =>
      confines_commit _ _ _
  split
  · exact (confines_onSurface _).bind fun _ => htail _
  · exact htail _

/-! ### Cycles -/

theorem exists_confines_start (hlive : s.live = none) (flags : Flags)
    (hmodel : (p.init flags s.scene.surface.current).1 = model)
    (hhs : (upcoming p none s.supply model).body.handlers.map Prod.snd ⊆ hs) :
    ∃ rest : Action Model M D X Unit, Confines hs (upcoming p none s.supply model) rest
      ∧ (start p flags).run s = rest.run (aligned none (p.view model).body s) := by
  subst hmodel
  obtain ⟨rest, hrest, hrun⟩ := exists_confines_renderFirst hhs
  refine ⟨do rest; dispatch p (p.init flags s.scene.surface.current).2,
    hrest.bind fun _ => confines_dispatch p _, ?_⟩
  rw [run_start_of_none p flags hlive]
  exact run_bind_congr hrun _

theorem exists_confines_process (hlive : s.live = some live) (m : M)
    (hmodel : (p.update m live.model).1 = model)
    (hhs : ∀ q ∈ Difference.patches live.body (upcoming p (some live.body) s.supply model).body,
      q.incoming.map Prod.snd ⊆ hs) :
    ∃ rest : Action Model M D X Unit, Confines hs (upcoming p (some live.body) s.supply model) rest
      ∧ (process p m).run s = rest.run (aligned (some live.body) (p.view model).body s) := by
  subst hmodel
  obtain ⟨rest, hrest, hrun⟩ := exists_confines_renderNext hhs
  have hcount : Confines hs (upcoming p (some live.body) s.supply (p.update m live.model).1)
      (modify fun t => { t with processed := t.processed + 1 } : Action Model M D X Unit) :=
    .modify fun t => .of_live rfl rfl (refl_of (Scene.Draws hs) t.scene) (List.prefix_refl _)
  refine ⟨do
      rest
      modify fun t => { t with processed := t.processed + 1 }
      dispatch p (p.update m live.model).2,
    hrest.bind fun _ => hcount.bind fun _ => confines_dispatch p _, ?_⟩
  rw [run_process_of_some p m hlive]
  exact run_bind_congr hrun _

end Session

end ViewLoop
