import ViewLoop.Proofs.Rendering
import ViewLoop.Session.Loop

/-!
# Running sessions

The sessions that a program can be in once it was started: whatever messages it processes, and
whatever its host does to the mailbox in the meantime (`Session.Running`). Each of them presents
the document of its model (`Session.Running.current`), and each call either succeeds or stops at a
command that goes to an address that cannot be resolved. An event that is reported, a step of the
loop and a whole run of it lead from a running session to a running session, however they end.
-/

namespace ViewLoop

variable {Flags Model M D E X α : Type}

/-- What is asked of a program: each of its pages is admissible. -/
def Program.Admissible (p : Program Flags Model M D E X) : Prop :=
  ∀ model, (p.view model).Admissible

/-- The live document is what the view yields for the live model, with all identities given. -/
structure Live.Follows (live : Live Model (Response D M)) (p : Program Flags Model M D E X) :
    Prop where
  title : live.title = (p.view live.model).title
  head : live.head = (p.view live.model).head
  body : live.body.described = (p.view live.model).body.described

namespace Session

variable {p : Program Flags Model M D E X}

theorem follows_upcoming (hp : p.Admissible) (previous : Option (Node (Response D M)))
    (supply : IdSupply) (model : Model) : (upcoming p previous supply model).Follows p :=
  ⟨rfl, rfl, Alignment.described_run (hp model).body⟩

/-- The surface shows the live tree, up to the order of attributes and the payloads of handlers, and
the live tree says what the view of the live model says. The title and the head are those of the
view, the head up to its order. -/
structure Displays (p : Program Flags Model M D E X) (s : Session Model M D X)
    (live : Live Model (Response D M)) : Prop where
  live_eq : s.live = some live
  tree : ∃ u, s.scene.surface.tree = .ok u ∧ u.Alike live.body.erased
  tidy : live.body.Tidy
  body : live.body.described = (p.view live.model).body.described
  title : s.scene.surface.title = (p.view live.model).title
  head : s.scene.surface.head.Perm (p.view live.model).head

theorem Presents.displays {s : Session Model M D X} {live : Live Model (Response D M)}
    (h : s.Presents live) (hf : live.Follows p) : Displays p s live :=
  ⟨h.live_eq, h.inStep.mirrors.tree_eq, h.grounded.tidy, hf.body, h.title.trans hf.title,
    hf.head ▸ h.head⟩

variable [DecidableEq M] [DecidableEq D]

/-! ### Whole calls -/

/-- A start shows the first document, and then carries out the first command. -/
theorem run_start (hp : p.Admissible) (settings : Settings) (url : Url) (executor : X)
    (flags : Flags) :
    ∃ s₁, (renderFirst p (p.init flags url).1).run (fresh settings url executor) = .ok () s₁
      ∧ (start p flags).run (fresh settings url executor)
        = (dispatch p (p.init flags url).2).run s₁
      ∧ Rendered (SceneStep.ofTree (upcoming p none {} (p.init flags url).1).body)
        (upcoming p none {} (p.init flags url).1) (fresh settings url executor) s₁ := by
  obtain ⟨s₁, hrun, hrendered⟩ := run_renderFirst (s := fresh settings url executor)
    (hp (p.init flags url).1) ⟨rfl, rfl⟩ rfl fun _ => rfl
  refine ⟨s₁, hrun, ?_, hrendered⟩
  rw [run_start_of_none p flags rfl]
  exact run_bind_of_ok hrun _

/-- A message is processed by showing the next document, and then carrying out the command. -/
theorem run_process {s : Session Model M D X} (hp : p.Admissible)
    {live : Live Model (Response D M)} (h : s.Presents live) (m : M) :
    ∃ s₁, (renderNext p live (p.update m live.model).1).run s = .ok () s₁
      ∧ (process p m).run s = (dispatch p (p.update m live.model).2).run
        { s₁ with processed := s₁.processed + 1 }
      ∧ Rendered ((Difference.patches live.body
          (upcoming p (some live.body) s.supply (p.update m live.model).1).body).flatMap
            SceneStep.ofPatch)
        (upcoming p (some live.body) s.supply (p.update m live.model).1) s s₁ := by
  obtain ⟨s₁, hrun, hrendered⟩ := run_renderNext (hp (p.update m live.model).1) h
  refine ⟨s₁, hrun, ?_, hrendered⟩
  rw [run_process_of_some p m h.live_eq, run_bind_of_ok hrun]
  rfl

/-- However a start ends, the first document is shown. -/
theorem rendered_start (hp : p.Admissible) (settings : Settings) (url : Url) (executor : X)
    (flags : Flags) :
    Rendered (SceneStep.ofTree (upcoming p none {} (p.init flags url).1).body)
      (upcoming p none {} (p.init flags url).1) (fresh settings url executor)
      (finalState ((start p flags).run (fresh settings url executor))) := by
  obtain ⟨s₁, -, hstart, hrendered⟩ := run_start hp settings url executor flags
  rw [hstart]
  exact hrendered.of_aside (harmless_dispatch p _ s₁).1

/-- However the processing of a message ends, the next document is shown. -/
theorem rendered_process {s : Session Model M D X} (hp : p.Admissible)
    {live : Live Model (Response D M)} (h : s.Presents live) (m : M) :
    Rendered ((Difference.patches live.body
        (upcoming p (some live.body) s.supply (p.update m live.model).1).body).flatMap
          SceneStep.ofPatch)
      (upcoming p (some live.body) s.supply (p.update m live.model).1) s
      (finalState ((process p m).run s)) := by
  obtain ⟨s₁, -, hprocess, hrendered⟩ := run_process hp h m
  rw [hprocess]
  have hcounted : s₁.Aside { s₁ with processed := s₁.processed + 1 } :=
    ⟨rfl, rfl, rfl, ⟨rfl, rfl⟩, rfl, rfl, rfl⟩
  exact hrendered.of_aside (hcounted.trans (harmless_dispatch p _ _).1)

theorem unresolved_of_start (hp : p.Admissible) {settings : Settings} {url : Url} {executor : X}
    {flags : Flags} {e : LoopError} {s' : Session Model M D X}
    (h : (start p flags).run (fresh settings url executor) = .error e s') :
    (p.init flags url).2.Unresolved s'.scene.surface.current e := by
  obtain ⟨s₁, -, hstart, -⟩ := run_start hp settings url executor flags
  rw [hstart] at h
  exact (harmless_dispatch p _ s₁).2 e s' h

theorem unresolved_of_process {s s' : Session Model M D X} (hp : p.Admissible)
    {live : Live Model (Response D M)} (hs : s.Presents live) {m : M} {e : LoopError}
    (h : (process p m).run s = .error e s') :
    (p.update m live.model).2.Unresolved s'.scene.surface.current e := by
  obtain ⟨s₁, -, hprocess, -⟩ := run_process hp hs m
  rw [hprocess] at h
  exact (harmless_dispatch p _ _).2 e s' h

/-! ### Running sessions -/

/-- The sessions that come about from a start by processing messages, whether the calls end well or
not. In between, the host may change what waits and who may send, and the state of the executor. -/
inductive Running (p : Program Flags Model M D E X) : Session Model M D X → Prop
  | start (settings : Settings) (url : Url) (executor : X) (flags : Flags) :
    Running p (finalState ((start p flags).run (fresh settings url executor)))
  | process {s : Session Model M D X} (h : Running p s) (m : M) :
    Running p (finalState ((process p m).run s))
  | host {s : Session Model M D X} (h : Running p s) (mailbox : Mailbox M)
    (isOpen : mailbox.isOpen = s.mailbox.isOpen) (executor : X) (warnings : List Warning) :
    Running p { s with mailbox, executor, warnings }

/-- A running session presents the document of its model, and its mailbox takes messages. -/
structure Current (p : Program Flags Model M D E X) (s : Session Model M D X)
    (live : Live Model (Response D M)) : Prop where
  presents : s.Presents live
  follows : live.Follows p
  isOpen : s.mailbox.isOpen = true

theorem Running.current (hp : p.Admissible) {s : Session Model M D X} (h : Running p s) :
    ∃ live, Current p s live := by
  induction h with
  | start settings url executor flags =>
    have hrendered := rendered_start hp settings url executor flags
    exact ⟨_, hrendered.presents, follows_upcoming hp _ _ _, hrendered.isOpen⟩
  | @process s h m ih =>
    obtain ⟨live, hcurrent⟩ := ih
    have hrendered := rendered_process hp hcurrent.presents m
    exact ⟨_, hrendered.presents, follows_upcoming hp _ _ _,
      hrendered.isOpen.trans hcurrent.isOpen⟩
  | @host s h mailbox isOpen executor warnings ih =>
    obtain ⟨live, hcurrent⟩ := ih
    -- nothing that a document is presented by belongs to the host
    obtain ⟨live_eq, hin, hground, htitle, hhead, hkeys⟩ := hcurrent.presents
    exact ⟨live, ⟨live_eq, hin, hground, htitle, hhead, hkeys⟩, hcurrent.follows,
      isOpen.trans hcurrent.isOpen⟩

/-! ### Loops -/

theorem Running.deliver [Decodes D M] {s : Session Model M D X} (h : Running p s)
    (id : HandlerId) (data : Option Value) : Running p (deliver id data s).2 :=
  h.host _ (Mailbox.isOpen_deliver s.mailbox s.scene.table id data) s.executor _

/-- The second session is running if the first is. -/
def RunsOn (p : Program Flags Model M D E X) (s s' : Session Model M D X) : Prop :=
  Running p s → Running p s'

instance : IsPreorder (Session Model M D X) (RunsOn p) where
  refl _ h := h
  trans _ _ _ h h' hs := h' (h hs)

/-- However the action ends, a running session runs on. -/
abbrev Keeps (p : Program Flags Model M D E X) (x : Action Model M D X α) : Prop :=
  Heeds (RunsOn p) (fun _ => True) x

theorem keeps_process (m : M) : Keeps p (process p m) :=
  ⟨fun _ hs => hs.process m, fun _ _ _ _ => trivial⟩

theorem keeps_await {wait : Mailbox M → Wait M × Mailbox M}
    (hwait : ∀ b, (wait b).2.isOpen = b.isOpen) : Keeps p (await wait) :=
  .of_ok fun s => ⟨_, _, rfl, fun hs =>
    hs.host (wait s.mailbox).2 (hwait s.mailbox) s.executor s.warnings⟩

theorem keeps_step : Keeps p (step p) := by
  refine ⟨fun s hs => ?_, fun _ _ _ _ => trivial⟩
  rw [step, run_get_bind]
  cases hnext : s.mailbox.next? with
  | none => exact hs
  | some q =>
    have hrest := hs.host q.2 (Mailbox.isOpen_next? hnext) s.executor s.warnings
    have hprocess : Keeps p (do process p q.1; return true) :=
      (keeps_process q.1).bind fun _ => .pure true
    exact hprocess.state _ hrest

theorem keeps_quiesceWithin (done fuel : Nat) : Keeps p (quiesceWithin p done fuel) := by
  have hwait : ∀ b : Mailbox M, b.nextOrQuiescent.2.isOpen = b.isOpen := fun b =>
    Mailbox.isOpen_await _ b _
  induction fuel generalizing done with
  | zero =>
    rw [quiesceWithin]
    refine (keeps_await hwait).bind fun w => ?_
    cases w with
    | quiescent => exact .pure _
    | blocked => exact .pure _
    | message m => exact .throw trivial
  | succ fuel ih =>
    rw [quiesceWithin]
    refine (keeps_await hwait).bind fun w => ?_
    cases w with
    | quiescent => exact .pure _
    | blocked => exact .pure _
    | message m => exact (keeps_process m).bind fun _ => ih (done + 1)

theorem keeps_quiesce : Keeps p (quiesce p) :=
  .get_bind fun s => keeps_quiesceWithin 0 s.settings.maxMessages

theorem keeps_run (fuel : Nat) : Keeps p (run p fuel) := by
  have hwait : ∀ b : Mailbox M, b.nextOrDeserted.2.isOpen = b.isOpen := fun b =>
    Mailbox.isOpen_await _ b _
  induction fuel with
  | zero => exact .pure _
  | succ fuel ih =>
    rw [run]
    refine (keeps_await hwait).bind fun w => ?_
    cases w with
    | quiescent => exact .pure _
    | blocked => exact .pure _
    | message m => exact (keeps_process m).bind fun _ => ih

/-! ### What is shown -/

theorem Running.displays (hp : p.Admissible) {s : Session Model M D X} (h : Running p s) :
    ∃ live, Displays p s live := by
  obtain ⟨live, hcurrent⟩ := h.current hp
  exact ⟨live, hcurrent.presents.displays hcurrent.follows⟩

/-- A running session shows its view, whatever it has processed. No rendering fails, and a call that
fails does so at a command that goes to an address that cannot be resolved. The view is shown too
where the loop stops, after one step or a whole run. -/
theorem displays_view (hp : p.Admissible) :
    (∀ (settings : Settings) (url : Url) (executor : X) (flags : Flags),
      let s : Session Model M D X := fresh settings url executor
      let next := p.init flags url
      let s' := finalState ((start p flags).run s)
      (∃ s₁, (renderFirst p next.1).run s = .ok () s₁)
        ∧ (∀ e, (start p flags).run s = .error e s' →
          next.2.Unresolved s'.scene.surface.current e)
        ∧ ∃ live, live.model = next.1 ∧ Displays p s' live)
    ∧ (∀ s : Session Model M D X, Running p s → ∃ live, Displays p s live ∧ ∀ m : M,
      let next := p.update m live.model
      let s' := finalState ((process p m).run s)
      (∃ s₁, (renderNext p live next.1).run s = .ok () s₁)
        ∧ (∀ e, (process p m).run s = .error e s' →
          next.2.Unresolved s'.scene.surface.current e)
        ∧ ∃ live', live'.model = next.1 ∧ Displays p s' live')
    ∧ ∀ s : Session Model M D X, Running p s →
      (∃ live, Displays p (finalState ((step p).run s)) live)
        ∧ (∃ live, Displays p (finalState ((quiesce p).run s)) live)
        ∧ ∀ fuel, ∃ live, Displays p (finalState ((run p fuel).run s)) live := by
  refine ⟨?_, ?_, fun s hs => ?_⟩
  · intro settings url executor flags s next s'
    obtain ⟨s₁, hrun, -, -⟩ := run_start hp settings url executor flags
    have hdisplays : Displays p s' (upcoming p none {} next.1) :=
      (rendered_start hp settings url executor flags).presents.displays
        (follows_upcoming hp none {} next.1)
    exact ⟨⟨s₁, hrun⟩, fun e he => unresolved_of_start hp he,
      upcoming p none {} next.1, rfl, hdisplays⟩
  · intro s hs
    obtain ⟨live, hcurrent⟩ := hs.current hp
    refine ⟨live, hcurrent.presents.displays hcurrent.follows, fun m => ?_⟩
    obtain ⟨s₁, hrun, -, -⟩ := run_process hp hcurrent.presents m
    intro next s'
    have hdisplays : Displays p s' (upcoming p (some live.body) s.supply next.1) :=
      (rendered_process hp hcurrent.presents m).presents.displays
        (follows_upcoming hp (some live.body) s.supply next.1)
    exact ⟨⟨s₁, hrun⟩, fun e he => unresolved_of_process hp hcurrent.presents he,
      upcoming p (some live.body) s.supply next.1, rfl, hdisplays⟩
  · exact ⟨(keeps_step.state s hs).displays hp, (keeps_quiesce.state s hs).displays hp,
      fun fuel => ((keeps_run fuel).state s hs).displays hp⟩

/-- A list whose two items change places with every message. -/
theorem displays_view_of_swap :
    let p : Program Unit Bool Unit Empty Empty Unit := {
      init := fun _ _ => (true, .none)
      update := fun _ up => (!up, .none)
      view := fun up => {
        title := if up then "up" else "down"
        head := [.metadata "order" (if up then "up" else "down"), .base "/"]
        body :=
          let a := .element (.keyed "a") "li" [.plain "class" "first"] [.text .unassigned "x"]
          let b := .element (.keyed "b") "li" [.handler ⟨"click", ⟨0⟩, .message ()⟩] []
          .element (.keyed "list") "ul" [] (if up then [a, b] else [b, a]) }
      urlChanged := fun _ => ()
      effectFailed := fun _ => ()
      execute := none }
    let s := finalState ((start p ()).run (fresh {} { scheme := "app", path := .segments [] } ()))
    p.Admissible
      ∧ ∃ live, live.model = false ∧ Displays p (finalState ((process p ()).run s)) live := by
  intro p s
  have hp : p.Admissible := fun up => by cases up <;> decide
  obtain ⟨hstart, hrunning, -⟩ := displays_view hp
  obtain ⟨-, -, live₀, hmodel, h₀⟩ := hstart {} { scheme := "app", path := .segments [] } () ()
  obtain ⟨live, hlive, hprocess⟩ := hrunning s (.start _ _ _ _)
  obtain rfl : live₀ = live := Option.some.inj (h₀.live_eq.symm.trans hlive.live_eq)
  obtain ⟨-, -, live', hmodel', h'⟩ := hprocess ()
  refine ⟨hp, live', ?_, h'⟩
  rw [hmodel', hmodel]
  rfl

end Session

end ViewLoop
