import ViewLoop.Proofs.Heeding
import ViewLoop.Session.Cycle

/-!
# What commands leave alone

A command is carried out by its leaves, from left to right (`Session.dispatch_eq_forM`). That
changes neither what is live nor what is shown of it, and the only way in which it can fail is that
an address it navigates to cannot be resolved (`Session.harmless_dispatch`).
-/

namespace ViewLoop

/-- The command navigates to the address somewhere. -/
def Command.Navigates {E : Type} (c : Command E) (url : String) : Prop :=
  .pushUrl url ∈ c.leaves ∨ .replaceUrl url ∈ c.leaves ∨ .loadUrl url ∈ c.leaves

/-- The failure of a command at an address: one that it navigates to cannot be resolved there. -/
def Command.Unresolved {E : Type} (c : Command E) (base : Url) (e : LoopError) : Prop :=
  ∃ url cause, e = .surface (.invalidUrl url cause) ∧ c.Navigates url
    ∧ base.join url = .error cause

theorem Command.Unresolved.mono {E : Type} {c d : Command E} {base : Url} {e : LoopError}
    (h : c.Unresolved base e) (hcd : c.leaves ⊆ d.leaves) : d.Unresolved base e := by
  obtain ⟨url, cause, he, hn, hbase⟩ := h
  exact ⟨url, cause, he, hn.imp (fun h => hcd h) (Or.imp (fun h => hcd h) fun h => hcd h), hbase⟩

namespace Session

variable {Flags Model M D E X : Type}

/-- The second session has the same live document as the first, shows it in the same way, and takes
messages if the first does. -/
structure Aside (s s' : Session Model M D X) : Prop where
  live : s'.live = s.live
  supply : s'.supply = s.supply
  table : s'.scene.table = s.scene.table
  nodes : s.scene.surface.SameNodes s'.scene.surface
  title : s'.scene.surface.title = s.scene.surface.title
  head : s'.scene.surface.head = s.scene.surface.head
  isOpen : s'.mailbox.isOpen = s.mailbox.isOpen

namespace Aside

variable {s s' s'' : Session Model M D X}

@[refl] theorem refl (s : Session Model M D X) : s.Aside s :=
  ⟨rfl, rfl, rfl, ⟨rfl, rfl⟩, rfl, rfl, rfl⟩

theorem trans (h : s.Aside s') (h' : s'.Aside s'') : s.Aside s'' :=
  ⟨h'.live.trans h.live, h'.supply.trans h.supply, h'.table.trans h.table,
    ⟨h'.nodes.1.trans h.nodes.1, h'.nodes.2.trans h.nodes.2⟩, h'.title.trans h.title,
    h'.head.trans h.head, h'.isOpen.trans h.isOpen⟩

end Aside

/-- Whatever the action comes to, it leaves the live document alone, and fails only as `Q` says of
the address where it stopped. -/
def Harmless {α : Type} (Q : Url → LoopError → Prop) (x : Action Model M D X α) : Prop :=
  ∀ s, s.Aside (finalState (x.run s))
    ∧ ∀ e s', x.run s = .error e s' → Q s'.scene.surface.current e

variable {α β : Type} {Q : Url → LoopError → Prop}

theorem Harmless.bind {x : Action Model M D X α} {f : α → Action Model M D X β}
    (hx : Harmless Q x) (hf : ∀ a, Harmless Q (f a)) : Harmless Q (x >>= f) := by
  intro s
  obtain ⟨haside, herror⟩ := hx s
  cases h : x.run s with
  | ok a s₁ =>
    rw [h] at haside
    rw [run_bind_of_ok h]
    exact ⟨haside.trans (hf a s₁).1, (hf a s₁).2⟩
  | error e s₁ =>
    rw [h] at haside
    rw [run_bind_of_error h]
    refine ⟨haside, fun e' s' he => ?_⟩
    obtain ⟨rfl, rfl⟩ := EStateM.Result.error.inj he
    exact herror e s₁ h

theorem harmless_pure (a : α) : Harmless Q (pure a : Action Model M D X α) :=
  fun s => ⟨.refl s, fun _ _ h => nomatch h⟩

theorem harmless_modify {f : Session Model M D X → Session Model M D X}
    (hf : ∀ s, Aside s (f s)) : Harmless Q (modify f : Action Model M D X Unit) :=
  fun s => ⟨hf s, fun _ _ h => nomatch h⟩

theorem harmless_get_bind {f : Session Model M D X → Action Model M D X β}
    (hf : ∀ s, Harmless Q (f s)) : Harmless Q (get >>= f) := fun s => hf s s

theorem Harmless.mono {x : Action Model M D X α} {Q' : Url → LoopError → Prop} (hx : Harmless Q x)
    (hq : ∀ base e, Q base e → Q' base e) : Harmless Q' x :=
  fun s => ⟨(hx s).1, fun e s' h => hq _ e ((hx s).2 e s' h)⟩

theorem Harmless.forM {f : α → Action Model M D X Unit} {l : List α}
    (h : ∀ a ∈ l, Harmless Q (f a)) : Harmless Q (l.forM f) := by
  induction l with
  | nil => exact harmless_pure ()
  | cons a l ih =>
    have hrest := ih fun b hb => h b (List.mem_cons_of_mem _ hb)
    exact (h a List.mem_cons_self).bind fun _ => hrest

/-! ### Navigation -/

theorem run_onSurface (edit : Surface.Edit α) (s : Session Model M D X) :
    (onSurface edit).run s = match edit.run s.scene.surface with
      | .ok a f => .ok a { s with scene := { s.scene with surface := f } }
      | .error cause f =>
        .error (.surface cause) { s with scene := { s.scene with surface := f } } := by
  rw [onSurface, run_onScene_eq, Scene.run_onSurface_eq]
  cases edit.run s.scene.surface <;> rfl

/-- Going to an address does what `place` says, if it can be resolved. -/
theorem run_navigate (url : String) (place : Url → Surface → Surface) (s : Session Model M D X) :
    (onSurface (do
      let next ← Surface.require ((← get).resolve url)
      modify (place next)
      return next)).run s = match s.scene.surface.current.join url with
      | .ok next => .ok next { s with scene := { s.scene with surface := place next s.scene.surface } }
      | .error cause => .error (.surface (.invalidUrl url cause)) s := by
  rw [run_onSurface, run_get_bind, Surface.resolve]
  cases s.scene.surface.current.join url <;> rfl

/-- The edit goes to an address, where it changes nothing but the place; without the address it is
refused. -/
def Goes (url : String) (edit : Surface.Edit Url) : Prop :=
  ∀ f, (∃ next f', edit.run f = .ok next f' ∧ f.SameNodes f' ∧ f'.title = f.title
      ∧ f'.head = f.head)
    ∨ ∃ cause, f.current.join url = .error cause ∧ edit.run f = .error (.invalidUrl url cause) f

theorem goes_of_place {url : String} (place : Url → Surface → Surface)
    (hplace : ∀ next f, f.SameNodes (place next f) ∧ (place next f).title = f.title
      ∧ (place next f).head = f.head) :
    Goes url (do
      let next ← Surface.require ((← get).resolve url)
      modify (place next)
      return next) := by
  intro f
  rw [run_get_bind, Surface.resolve]
  cases hjoin : f.current.join url with
  | ok next => exact Or.inl ⟨next, place next f, rfl, hplace next f⟩
  | error cause => exact Or.inr ⟨cause, rfl, rfl⟩

theorem goes_pushUrl (url : String) : Goes url (Surface.pushUrl url) :=
  goes_of_place (fun next f => { f with history := f.history ++ [next], current := next })
    fun _ _ => ⟨⟨rfl, rfl⟩, rfl, rfl⟩

theorem goes_replaceUrl (url : String) : Goes url (Surface.replaceUrl url) :=
  goes_of_place
    (fun next f => { f with history := f.history.dropLast ++ [next], current := next })
    fun _ _ => ⟨⟨rfl, rfl⟩, rfl, rfl⟩

theorem goes_loadUrl (url : String) : Goes url (Surface.loadUrl url) :=
  goes_of_place
    (fun next f =>
      { f with loads := f.loads ++ [next], history := f.history ++ [next], current := next })
    fun _ _ => ⟨⟨rfl, rfl⟩, rfl, rfl⟩

theorem harmless_navigate {edit : Surface.Edit Url} {url : String} (hedit : Goes url edit)
    {c : Command E} (hc : c.Navigates url) :
    Harmless c.Unresolved (onSurface edit : Action Model M D X Url) := by
  intro s
  rw [run_onSurface]
  rcases hedit s.scene.surface with ⟨next, f, hrun, hnodes, htitle, hhead⟩ | ⟨cause, hjoin, hrun⟩
  · rw [hrun]
    exact ⟨⟨rfl, rfl, rfl, hnodes, htitle, hhead, rfl⟩, fun _ _ h => nomatch h⟩
  · rw [hrun]
    refine ⟨.refl s, fun e s' he => ?_⟩
    obtain ⟨rfl, rfl⟩ := EStateM.Result.error.inj he
    exact ⟨url, cause, rfl, hc, hjoin⟩

theorem harmless_post {m : M} : Harmless Q (post m : Action Model M D X Unit) :=
  harmless_modify fun _ => ⟨rfl, rfl, rfl, ⟨rfl, rfl⟩, rfl, rfl, rfl⟩

theorem harmless_warn {ws : List Warning} : Harmless Q (warn ws : Action Model M D X Unit) :=
  harmless_modify fun _ => ⟨rfl, rfl, rfl, ⟨rfl, rfl⟩, rfl, rfl, rfl⟩

/-! ### Effects -/

theorem foldl_same {σ τ γ : Type} {f : σ → τ} {g : σ → γ → σ} (h : ∀ s c, f (g s c) = f s)
    (l : List γ) (s : σ) : f (l.foldl g s) = f s := by
  induction l generalizing s with
  | nil => rfl
  | cons c l ih => rw [List.foldl_cons, ih, h]

/-- Contexts and workers count for nothing in what a mailbox holds and takes. -/
theorem settleExecution_same {τ : Type} {f : Mailbox M → τ}
    (hdrop : ∀ b, f (b.dropContext) = f b) (hstart : ∀ b ms, f (b.startWorker ms) = f b)
    (b : Mailbox M) (r : Execution M X) :
    f (settleExecution b r) = f (b.addContext.sendAll r.sent) := by
  rw [settleExecution, foldl_same fun b _ => hdrop b]
  split
  · exact foldl_same hstart _ _
  · rw [hdrop]
    exact foldl_same hstart _ _

theorem isOpen_settleExecution (b : Mailbox M) (r : Execution M X) :
    (settleExecution b r).isOpen = b.isOpen := by
  rw [settleExecution_same (f := Mailbox.isOpen) (fun _ => rfl) fun _ _ => rfl]
  exact Mailbox.isOpen_sendAll b.addContext r.sent

theorem queue_settleExecution_eq (b : Mailbox M) (r : Execution M X) :
    (settleExecution b r).queue = b.queue ++ if b.isOpen then r.sent else [] := by
  rw [settleExecution_same (f := Mailbox.queue) (fun _ => rfl) fun _ _ => rfl]
  have hopen : b.addContext.isOpen = b.isOpen := rfl
  rw [Mailbox.sendAll, hopen]
  by_cases h : b.isOpen = true
  · rw [if_pos h, if_pos h]
    rfl
  · rw [if_neg h, if_neg h, List.append_nil]
    rfl

theorem harmless_perform (p : Program Flags Model M D E X) (e : E) :
    Harmless Q (perform p e : Action Model M D X Unit) := by
  rw [perform]
  split
  · exact harmless_warn
  · refine harmless_get_bind fun s => ?_
    refine (harmless_modify fun s => ?_).bind fun _ => ?_
    · exact ⟨rfl, rfl, rfl, ⟨rfl, rfl⟩, rfl, rfl, isOpen_settleExecution _ _⟩
    · split
      · exact harmless_pure ()
      · exact harmless_warn.bind fun _ => harmless_post

/-! ### Commands -/

theorem forM_singleton {ε σ α : Type} (f : α → EStateM ε σ Unit) (a : α) : [a].forM f = f a :=
  bind_pure_unit

mutual

theorem dispatch_eq_forM (p : Program Flags Model M D E X) :
    ∀ c : Command E, (dispatch p c : Action Model M D X Unit) = c.leaves.forM (dispatch p)
  | .none => by
    rw [dispatch]
    rfl
  | .batch commands => by
    rw [dispatch, Command.leaves]
    exact dispatchAll_eq_forM p commands
  | .pushUrl url => (forM_singleton _ _).symm
  | .replaceUrl url => (forM_singleton _ _).symm
  | .loadUrl url => (forM_singleton _ _).symm
  | .effect e => (forM_singleton _ _).symm

theorem dispatchAll_eq_forM (p : Program Flags Model M D E X) :
    ∀ cs : List (Command E),
      (dispatchAll p cs : Action Model M D X Unit) = (Command.forestLeaves cs).forM (dispatch p)
  | [] => by
    rw [dispatchAll]
    rfl
  | c :: cs => by
    rw [dispatchAll, Command.forestLeaves, List.forM_eq_forM, List.forM_append,
      dispatch_eq_forM p c, dispatchAll_eq_forM p cs]
    rfl

end

/-- What holds of each navigation, of a message that is posted and of each effect holds of every
command. -/
theorem heeds_dispatch {R : Session Model M D X → Session Model M D X → Prop} [IsPreorder _ R]
    {Q : LoopError → Prop} {p : Program Flags Model M D E X}
    (hgo : ∀ url, ∀ edit ∈ [Surface.pushUrl url, Surface.replaceUrl url, Surface.loadUrl url],
      Heeds R Q (onSurface edit : Action Model M D X Url))
    (hpost : ∀ m, Heeds R Q (post m : Action Model M D X Unit))
    (hperform : ∀ e, Heeds R Q (perform p e : Action Model M D X Unit)) (c : Command E) :
    Heeds R Q (dispatch p c : Action Model M D X Unit) := by
  rw [dispatch_eq_forM]
  refine .forM fun d hd => ?_
  have hleaf := Command.isLeaf_of_mem_leaves c hd
  cases d with
  | none => exact hleaf.elim
  | batch commands => exact hleaf.elim
  | pushUrl url =>
    rw [dispatch]
    exact (hgo url _ (by simp)).bind fun _ => hpost _
  | replaceUrl url =>
    rw [dispatch]
    exact (hgo url _ (by simp)).bind fun _ => hpost _
  | loadUrl url =>
    rw [dispatch]
    exact (hgo url _ (by simp)).bind fun _ => .pure ()
  | effect e =>
    rw [dispatch]
    exact hperform e

theorem harmless_leaf (p : Program Flags Model M D E X) {c : Command E} (hc : c.IsLeaf) :
    Harmless c.Unresolved (dispatch p c : Action Model M D X Unit) := by
  have hleaf : c ∈ c.leaves := by simp [hc.leaves_eq]
  cases c with
  | none => exact hc.elim
  | batch commands => exact hc.elim
  | pushUrl url =>
    rw [dispatch]
    exact (harmless_navigate (goes_pushUrl url) (Or.inl hleaf)).bind fun _ => harmless_post
  | replaceUrl url =>
    rw [dispatch]
    exact (harmless_navigate (goes_replaceUrl url) (Or.inr (Or.inl hleaf))).bind fun _ =>
      harmless_post
  | loadUrl url =>
    rw [dispatch]
    exact (harmless_navigate (goes_loadUrl url) (Or.inr (Or.inr hleaf))).bind fun _ =>
      harmless_pure ()
  | effect e =>
    rw [dispatch]
    exact harmless_perform p e

theorem harmless_dispatch (p : Program Flags Model M D E X) (c : Command E) :
    Harmless c.Unresolved (dispatch p c : Action Model M D X Unit) := by
  rw [dispatch_eq_forM]
  refine Harmless.forM fun d hd => ?_
  have hleaf := harmless_leaf p (Command.isLeaf_of_mem_leaves c hd)
  exact hleaf.mono fun base e he => he.mono (Command.leaves_subset hd)

end Session

end ViewLoop
