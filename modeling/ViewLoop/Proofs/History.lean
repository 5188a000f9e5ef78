import ViewLoop.Proofs.Bounds
import ViewLoop.Proofs.Lineages

/-!
# Histories

All that a host can do with a session from its beginning, with a log of the cycles
(`Session.History`). The trees of the log are a lineage, however many cycles failed, and the handler
table finds handlers of these trees only, also between any two steps of a cycle. So identities are
never recycled, and an event that comes late reaches no other element than the one it was meant for
(`Session.never_recycled`).
-/

namespace ViewLoop

/-! ### Handlers that patches bring -/

section Patches

open Node

variable {P : Type}

theorem Patch.incoming_cases (p : Patch P) : p.incoming = []
    ∨ (∃ c, p.entering = some c ∧ p.incoming = c.handlers) ∨ p.changesAttribute = true := by
  cases p with
  | addAttribute x a => exact Or.inr (Or.inr rfl)
  | updateAttribute x a b => exact Or.inr (Or.inr rfl)
  | removeAttribute x a => exact Or.inr (Or.inr rfl)
  | addChild x i c => exact Or.inr (Or.inl ⟨c, rfl, rfl⟩)
  | addText x i c => exact Or.inr (Or.inl ⟨c, rfl, rfl⟩)
  | replaceChild x c d => exact Or.inr (Or.inl ⟨d, rfl, rfl⟩)
  | removeChild x c => exact Or.inl rfl
  | removeText x c => exact Or.inl rfl
  | updateText x u => exact Or.inl rfl
  | reorderChildren x order => exact Or.inl rfl

/-- A difference brings handlers of the new tree only. -/
theorem Difference.incoming_subset [DecidableEq P] {old new : Node P} {p : Patch P}
    (ho : old.ids.Nodup) (hn : new.ids.Nodup) (hp : p ∈ patches old new) :
    p.incoming ⊆ new.handlers := by
  rcases p.incoming_cases with hnone | ⟨c, hc, hin⟩ | hattribute
  · rw [hnone]
    exact List.nil_subset _
  · rw [hin]
    exact handlers_subset_of_mem (mem_subtrees_of_entering ho hn hp hc)
  · obtain ⟨o, n, hstays, hown⟩ := exists_of_changesAttribute ho hn hp hattribute
    have hmem : ∀ k : NodeId × Handler P, k.1 = o.id → .handler k.2 ∈ n.attributes →
        k ∈ new.handlers := fun k hid hk =>
      mem_handlers_iff.mpr ⟨n, hstays.mem_new, hstays.id_eq.symm.trans hid.symm, hk⟩
    intro k hk
    rcases attributePatches_cases hown with ⟨a, -, rfl⟩ | ⟨a, ha, -, rfl⟩ | ⟨a, ha, b, -, -, rfl⟩
    · exact absurd hk List.not_mem_nil
    · obtain ⟨hid, hka⟩ := Patch.mem_incoming_iff.mp hk
      split at hka
      · exact nomatch hka
      · exact hmem k hid (hka ▸ ha)
    · obtain ⟨hid, hka⟩ := Patch.mem_incoming_iff.mp hk
      exact hmem k hid (hka ▸ ha)

end Patches

/-- The steps that show a tree on a scene, in the place of the one that is live, if any is. -/
def SceneStep.showing {P : Type} [DecidableEq P] : Option (Node P) → Node P → List (SceneStep P)
  | none, next => ofTree next
  | some old, next => (Difference.patches old next).flatMap ofPatch

namespace Session

variable {Flags Model M D E X : Type} [DecidableEq M] [DecidableEq D]

/-! ### Calls -/

/-- What a host calls a session for. -/
inductive Call (Flags M : Type) where
  | start (flags : Flags)
  | process (m : M)

def Call.run (p : Program Flags Model M D E X) : Call Flags M → Action Model M D X Unit
  | start flags => Session.start p flags
  | process m => Session.process p m

/-- The model that the call renders. There is none for a start of a session that is live, and for a
message to one that is not. -/
def Call.model? (p : Program Flags Model M D E X) (s : Session Model M D X) :
    Call Flags M → Option Model
  | start flags =>
    match s.live with
    | none => some (p.init flags s.scene.surface.current).1
    | some _ => none
  | process m => s.live.map fun live => (p.update m live.model).1

def body? (s : Session Model M D X) : Option (Node (Response D M)) := s.live.map Live.body

/-- The cycle of a call that renders the model. -/
def cycle (p : Program Flags Model M D E X) (s : Session Model M D X) (c : Call Flags M)
    (model : Model) : Cycle (Response D M) :=
  ⟨(upcoming p s.body? s.supply model).body, (finalState ((c.run p).run s)).body?⟩

/-- The sessions that a host can come to, each with a log of its cycles, the latest first. Calls may
end well or not, and those that are refused leave no cycle. In between, all that the session does not
own may change, so that a call may find another surface than the one before has left. -/
inductive History (p : Program Flags Model M D E X) :
    Session Model M D X → List (Cycle (Response D M)) → Prop
  | fresh (settings : Settings) (url : Url) (executor : X) :
    History p (fresh settings url executor) []
  | refused {s : Session Model M D X} {log : List (Cycle (Response D M))} (h : History p s log)
    (c : Call Flags M) (none : c.model? p s = none) :
    History p (finalState ((c.run p).run s)) log
  | cycle {s : Session Model M D X} {log : List (Cycle (Response D M))} (h : History p s log)
    (c : Call Flags M) {model : Model} (renders : c.model? p s = some model)
    (keys : (p.view model).body.DistinctKeys) :
    History p (finalState ((c.run p).run s)) (s.cycle p c model :: log)
  | host {s : Session Model M D X} {log : List (Cycle (Response D M))} (h : History p s log)
    (settings : Settings) (surface : Surface) (mailbox : Mailbox M) (executor : X)
    (warnings : List Warning) (trace : List String) :
    History p { s with
      settings, mailbox, executor, warnings, trace, scene := { s.scene with surface } } log

/-- The scenes that an event can find: between calls, and after some of the steps with which a cycle
shows its tree. -/
inductive Instant (p : Program Flags Model M D E X) :
    Scene (Response D M) → List (Cycle (Response D M)) → Prop
  | between {s : Session Model M D X} {log : List (Cycle (Response D M))} (h : History p s log) :
    Instant p s.scene log
  | during {s : Session Model M D X} {log : List (Cycle (Response D M))} (h : History p s log)
    (c : Call Flags M) {model : Model} (renders : c.model? p s = some model)
    (keys : (p.view model).body.DistinctKeys) (before after : List (SceneStep (Response D M)))
    (steps : SceneStep.showing s.body? (s.cycle p c model).tree = before ++ after) :
    Instant p (finalState ((Scene.run before).run s.scene)) (s.cycle p c model :: log)

variable {p : Program Flags Model M D E X} {s : Session Model M D X} {c : Call Flags M}
  {model : Model} {log : List (Cycle (Response D M))}

theorem run_of_model?_none (h : c.model? p s = none) : finalState ((c.run p).run s) = s := by
  cases c with
  | start flags =>
    cases hlive : s.live with
    | none =>
      rw [Call.model?, hlive] at h
      exact nomatch h
    | some live =>
      rw [Call.run, start, run_get_bind, hlive]
      rfl
  | process m =>
    have hlive : s.live = none := Option.map_eq_none_iff.mp h
    rw [Call.run, process, run_get_bind, hlive]
    rfl

/-- A call that renders a model aligns its document, and then keeps the bounds of a cycle. -/
theorem exists_confines_call (hp : ∀ t ∈ s.body?, Alignment.WellFormed s.supply t)
    (hmodel : c.model? p s = some model) (keys : (p.view model).body.DistinctKeys) :
    ∃ rest : Action Model M D X Unit,
      Confines ((s.cycle p c model).tree.handlers.map Prod.snd) (upcoming p s.body? s.supply model)
        rest
      ∧ (c.run p).run s = rest.run (aligned s.body? (p.view model).body s) := by
  cases c with
  | start flags =>
    cases hlive : s.live with
    | some live =>
      rw [Call.model?, hlive] at hmodel
      exact nomatch hmodel
    | none =>
      rw [Call.model?, hlive] at hmodel
      have hbody : s.body? = none := by rw [body?, hlive, Option.map_none]
      rw [cycle, hbody]
      exact exists_confines_start hlive flags (Option.some.inj hmodel) (List.Subset.refl _)
  | process m =>
    obtain ⟨live, hlive, hupdate⟩ := Option.map_eq_some_iff.mp hmodel
    have hbody : s.body? = some live.body := by rw [body?, hlive, Option.map_some]
    rw [cycle, hbody]
    refine exists_confines_process hlive m hupdate fun q hq => List.map_subset _ ?_
    have hnext := Alignment.wellFormed_run hp keys
    rw [hbody] at hnext
    exact Difference.incoming_subset (hp _ hbody).nodup hnext.nodup hq

/-! ### What a history keeps -/

/-- What the table finds is a handler of one of the trees. -/
def Traces (scene : Scene (Response D M)) (log : List (Cycle (Response D M))) : Prop :=
  ∀ id k, scene.table.get? id = some k → k.id = id ∧ ∃ b ∈ log, ∃ e, (e, k) ∈ b.tree.handlers

omit [DecidableEq M] [DecidableEq D] in
theorem Traces.draws {scene scene' : Scene (Response D M)} {b : Cycle (Response D M)}
    (h : Traces scene log) (hdraws : scene.Draws (b.tree.handlers.map Prod.snd) scene') :
    Traces scene' (b :: log) := by
  intro id k hk
  rcases hdraws id k hk with hold | ⟨hnew, hid⟩
  · obtain ⟨hid, d, hd, e, he⟩ := h id k hold
    exact ⟨hid, d, List.mem_cons_of_mem _ hd, e, he⟩
  · obtain ⟨⟨e, l⟩, hl, rfl⟩ := List.mem_map.mp hnew
    exact ⟨hid, b, List.mem_cons_self, e, hl⟩

/-- The log tells where all identities of the session come from. -/
structure Traced (s : Session Model M D X) (log : List (Cycle (Response D M))) : Prop where
  lineage : Alignment.Lineage s.supply log
  live : Alignment.liveAfter log = s.body?
  table : Traces s.scene log

theorem Traced.cycle (h : Traced s log) (hmodel : c.model? p s = some model)
    (keys : (p.view model).body.DistinctKeys) :
    Traced (finalState ((c.run p).run s)) (s.cycle p c model :: log) := by
  obtain ⟨rest, hrest, hrun⟩ := exists_confines_call (h.live ▸ h.lineage.wellFormed_live) hmodel keys
  have hbounds := hrest.state (aligned s.body? (p.view model).body s)
  rw [← hrun] at hbounds
  have hcommits : (finalState ((c.run p).run s)).body? = s.body?
      ∨ (finalState ((c.run p).run s)).body? = some (s.cycle p c model).tree := by
    rcases hbounds.live with hsame | hnext
    · exact Or.inl (congrArg (Option.map Live.body) hsame)
    · exact Or.inr (congrArg (Option.map Live.body) hnext)
  refine ⟨?_, rfl, h.table.draws hbounds.table⟩
  rw [hbounds.supply]
  have hnext := h.lineage.next _ keys (finalState ((c.run p).run s)).body?
  rw [h.live] at hnext
  exact hnext hcommits

theorem History.traced (h : History p s log) : Traced s log := by
  induction h with
  | fresh settings url executor => exact ⟨.start _, rfl, fun id k hk => nomatch hk⟩
  | refused h c hnone ih =>
    rw [run_of_model?_none hnone]
    exact ih
  | cycle h c renders keys ih => exact ih.cycle renders keys
  | host h settings surface mailbox executor warnings trace ih =>
    exact ⟨ih.lineage, ih.live, ih.table⟩

theorem puts_showing {P : Type} [DecidableEq P] {old : Option (Node P)} {next : Node P}
    (ho : ∀ t ∈ old, t.ids.Nodup) (hn : next.ids.Nodup) :
    ∀ step ∈ SceneStep.showing old next, step.puts ⊆ next.handlers.map Prod.snd := by
  cases old with
  | none => exact Scene.puts_ofTree next
  | some old =>
    intro step hstep
    obtain ⟨q, hq, hstep⟩ := List.mem_flatMap.mp hstep
    exact List.Subset.trans (Scene.puts_ofPatch q step hstep)
      (List.map_subset _ (Difference.incoming_subset (ho old rfl) hn hq))

theorem Instant.traced {scene : Scene (Response D M)} (h : Instant p scene log) :
    (∃ supply, Alignment.Lineage supply log) ∧ Traces scene log := by
  cases h with
  | between h => exact ⟨⟨_, h.traced.lineage⟩, h.traced.table⟩
  | @during s log h c model renders keys before after steps =>
    have htraced := h.traced
    have hnext := (htraced.cycle renders keys).lineage
    have hold := htraced.live ▸ htraced.lineage.wellFormed_live
    refine ⟨⟨_, hnext⟩, htraced.table.draws ?_⟩
    have hputs := puts_showing (fun t ht => (hold t ht).nodup)
      (hnext.wellFormed List.mem_cons_self).nodup
    refine (Scene.heeds_run fun step hstep => hputs step ?_).state s.scene
    rw [steps]
    exact List.mem_append_left _ hstep

/-! ### Identities are not recycled -/

/-- Identities are never recycled, whatever calls a host makes and however they end. A handler
identity that occurs in two trees is for the same event on the same element in both, and an identity
that was drawn for a node is for a node of the same kind and tag. What occurs in two trees is in each
tree that is live from the first of them until the second is aligned. So what has left the live tree
occurs in no later tree; and whatever an event finds under the identity of a handler, at any
instant, is a handler of the same element for the same event. -/
theorem never_recycled {scene : Scene (Response D M)} (h : Instant p scene log) :
    (∀ a ∈ log, ∀ b ∈ log,
      (∀ e k e' k', (e, k) ∈ a.tree.handlers → (e', k') ∈ b.tree.handlers → k.id = k'.id →
        e = e' ∧ k.event = k'.event)
      ∧ ∀ m ∈ a.tree.subtrees, ∀ n ∈ b.tree.subtrees, ∀ i, m.id = .generated i →
        n.id = .generated i → m.SameShape n)
    ∧ (∀ later b earlier, log = later ++ b :: earlier → ∀ a ∈ b :: earlier, ∀ c ∈ later,
      ∀ x : Mark, x.isKeyed = false → x ∈ a.tree.marks true → x ∈ c.tree.marks true →
        ∃ t ∈ b.live, x ∈ t.marks true)
    ∧ (∀ later b earlier, log = later ++ b :: earlier → ∀ a ∈ b :: earlier, ∀ t ∈ a.live,
      ∀ x : Mark, x.isKeyed = false → x ∈ t.marks true → (∀ u ∈ b.live, x ∉ u.marks true) →
        ∀ c ∈ later, x ∉ c.tree.marks true)
    ∧ ∀ a ∈ log, ∀ e k, (e, k) ∈ a.tree.handlers → ∀ j, scene.table.get? k.id = some j →
      j.event = k.event ∧ ∃ b ∈ log, (e, j) ∈ b.tree.handlers := by
  obtain ⟨⟨supply, hlineage⟩, htable⟩ := h.traced
  have hhandlers : ∀ a ∈ log, ∀ b ∈ log, ∀ e k e' k', (e, k) ∈ a.tree.handlers →
      (e', k') ∈ b.tree.handlers → k.id = k'.id → e = e' ∧ k.event = k'.event := by
    intro a ha b hb e k e' k' hk hk' hid
    have hrole := Node.handler_mem_roles hk
    rw [hid] at hrole
    exact Role.handler.inj (hlineage.role_eq ha hb rfl hrole (Node.handler_mem_roles hk'))
  refine ⟨fun a ha b hb => ⟨hhandlers a ha b hb, ?_⟩, ?_, ?_, ?_⟩
  · intro m hm n hn i hmi hni
    have hrole := Node.node_mem_roles hm
    have hrole' := Node.node_mem_roles hn
    rw [hmi] at hrole
    rw [hni] at hrole'
    exact Role.node.inj (hlineage.role_eq ha hb rfl hrole hrole')
  · rintro later b earlier rfl a ha c hc x hx hxa hxc
    exact hlineage.mem_live ha hc hx hxa hxc
  · rintro later b earlier rfl a ha t ht x hx hxt hlost
    obtain ⟨supply', hupTo⟩ := hlineage.upTo
    obtain ⟨d, hd, rfl⟩ := hupTo.exists_of_mem_live ha t ht
    exact (hlineage.lost hd hx hxt hlost).1
  · intro a ha e k hk j hj
    obtain ⟨hid, b, hb, e', hjb⟩ := htable _ j hj
    obtain ⟨rfl, hev⟩ := hhandlers a ha b hb e k e' j hk hjb hid.symm
    exact ⟨hev.symm, b, hb, hjb⟩

/-- A button gives way to a link, but the cycle fails at a head entry that stands there twice. After the
surface is mended, the button goes for good, and what comes back is another one. The link was never
live, and the table still finds its handler. -/
theorem never_recycled_of_button :
    let p : Program Unit Nat Nat Empty Empty Unit := {
      init := fun _ _ => (0, .none)
      update := fun m _ => (m, .none)
      view := fun model => {
        title := "page"
        head := if model = 1 then [.script "s", .script "s"] else []
        body := .element (.keyed "page") "main" [.handler ⟨"click", .invalid, .message 0⟩]
          (match model with
            | 0 => [.text .unassigned "go", .element .unassigned "button"
              [.handler ⟨"click", .invalid, .message 1⟩] []]
            | 1 => [.text .unassigned "go", .element .unassigned "a"
              [.handler ⟨"click", .invalid, .message 2⟩] []]
            | _ => [.text .unassigned "gone"]) }
      urlChanged := fun _ => 0
      effectFailed := fun _ => 0
      execute := none }
    let new := fresh {} { scheme := "app", path := .segments [] } ()
    let started := finalState ((start p ()).run new)
    let failed := finalState ((process p 1).run started)
    let mended := { failed with scene := { failed.scene with surface := started.scene.surface } }
    let gone := finalState ((process p 2).run mended)
    let a₁ := new.cycle p (.start ()) 0
    let a₂ := started.cycle p (.process 1) 1
    let a₃ := mended.cycle p (.process 2) 2
    let a₄ := gone.cycle p (.process 0) 0
    let back := finalState ((process p 0).run gone)
    Instant p back.scene [a₄, a₃, a₂, a₁] ∧ a₂.live = some a₁.tree
      ∧ (∃ m ∈ a₁.tree.subtrees, ∃ n ∈ a₃.tree.subtrees, m.id = .generated 1 ∧ n.id = .generated 1
        ∧ m.SameShape n)
      ∧ (∃ t ∈ a₂.live, .node (.generated 1) ∈ t.marks true)
      ∧ (.handler ⟨2⟩ ∈ a₁.tree.marks true ∧ .handler ⟨2⟩ ∉ a₄.tree.marks true)
      ∧ ∃ j, back.scene.table.get? ⟨3⟩ = some j ∧ j.event = "click"
        ∧ ∃ b ∈ [a₄, a₃, a₂, a₁], (.generated 3, j) ∈ b.tree.handlers := by
  intro p new started failed mended gone a₁ a₂ a₃ a₄ back
  have hstarted : History p started [a₁] := .cycle (.fresh _ _ _) (.start ()) rfl (by decide)
  have hfailed : History p failed [a₂, a₁] := .cycle hstarted (.process 1) (by decide +kernel) (by decide)
  have hmended : History p mended [a₂, a₁] := .host hfailed _ _ _ _ _ _
  have hgone : History p gone [a₃, a₂, a₁] := .cycle hmended (.process 2) (by decide +kernel) (by decide)
  have hback : History p back [a₄, a₃, a₂, a₁] := .cycle hgone (.process 0) (by decide +kernel) (by decide)
  obtain ⟨hsame, hbetween, hlost, hstale⟩ := never_recycled (.between hback)
  have hkept : a₂.live = some a₁.tree := by decide +kernel
  have hlive : a₁.live = some a₁.tree := by decide +kernel
  have hgo : .text (.generated 1) "go" ∈ a₁.tree.subtrees := by decide +kernel
  have hstill : .text (.generated 1) "gone" ∈ a₃.tree.subtrees := by decide +kernel
  have hbutton : .handler ⟨2⟩ ∈ a₁.tree.marks true := by decide +kernel
  have hleft : ∀ u ∈ a₃.live, .handler ⟨2⟩ ∉ u.marks true := by decide +kernel
  have hlink : (.generated 3, ⟨"click", ⟨3⟩, .message 2⟩) ∈ a₂.tree.handlers := by decide +kernel
  have hfound : back.scene.table.get? ⟨3⟩ = some ⟨"click", ⟨3⟩, .message 2⟩ := by decide +kernel
  have hagain : .handler ⟨2⟩ ∉ a₄.tree.marks true :=
    hlost [a₄] a₃ [a₂, a₁] rfl a₁ (by simp) a₁.tree hlive _ rfl hbutton hleft a₄ (by simp)
  have hmeanwhile : ∃ t ∈ a₂.live, .node (.generated 1) ∈ t.marks true :=
    hbetween [a₄, a₃] a₂ [a₁] rfl a₁ (by simp) a₃ (by simp) _ rfl
      (by decide +kernel) (by decide +kernel)
  exact ⟨.between hback, hkept,
    ⟨_, hgo, _, hstill, rfl, rfl, (hsame a₁ (by simp) a₃ (by simp)).2 _ hgo _ hstill 1 rfl rfl⟩,
    hmeanwhile, ⟨hbutton, hagain⟩, _, hfound, hstale a₂ (by simp) _ _ hlink _ hfound⟩

end Session

end ViewLoop
