import ViewLoop.Proofs.Running
import ViewLoop.Proofs.Surroundings

/-!
# The loop as a queue

What the loop does with messages, told without anything that is shown. A `Routine` is a program
without its view. It works on an `Agenda`: a model, the messages that wait, an address, and the
state of an executor. One step takes the first message, updates the model, and lets the commands
that follow add to the queue, one after another.

A started session does what the routine of its program does, call by call
(`Session.steps_as_routine`).
-/

namespace ViewLoop

variable {Flags Model M D E X α β : Type}

/-- A program without its view. -/
structure Routine (Model M E X : Type) where
  update : M → Model → Model × Command E
  urlChanged : Url → M
  effectFailed : CommandError → M
  execute : Option (Executor E M X)

def Program.routine (p : Program Flags Model M D E X) : Routine Model M E X :=
  { update := p.update, urlChanged := p.urlChanged, effectFailed := p.effectFailed,
    execute := p.execute }

/-- What a routine works on. -/
structure Agenda (Model M X : Type) where
  model : Model
  queue : List M
  place : Url
  executor : X

namespace Agenda

abbrev Action (Model M X α : Type) := EStateM LoopError (Agenda Model M X) α

def enqueue (ms : List M) : Action Model M X Unit :=
  modify fun a => { a with queue := a.queue ++ ms }

/-- Goes to the address that a text stands for at the present one. -/
def goTo (url : String) : Action Model M X Url := do
  match (← get).place.join url with
  | .error cause => throw (.surface (.invalidUrl url cause))
  | .ok next => do
    modify fun a => { a with place := next }
    return next

end Agenda

namespace Routine

/-- Carries out a single command. A nest of commands is carried out by its leaves. -/
def obey (r : Routine Model M E X) : Command E → Agenda.Action Model M X Unit
  | .none => pure ()
  | .batch _ => pure ()
  | .pushUrl url => do Agenda.enqueue [r.urlChanged (← Agenda.goTo url)]
  | .replaceUrl url => do Agenda.enqueue [r.urlChanged (← Agenda.goTo url)]
  | .loadUrl url => do
    let _ ← Agenda.goTo url
  | .effect e => do
    match r.execute with
    | none => pure ()
    | some execute =>
      modify fun a =>
        let run := execute e a.executor
        let failed := (run.failure.map r.effectFailed).toList
        { a with executor := run.state, queue := a.queue ++ run.sent ++ failed }

def obeyAll (r : Routine Model M E X) (c : Command E) : Agenda.Action Model M X Unit :=
  c.leaves.forM r.obey

/-- Takes the first message, if there is one. The answer tells whether there was. -/
def step (r : Routine Model M E X) : Agenda.Action Model M X Bool := do
  match (← get).queue with
  | [] => return false
  | m :: rest => do
    let (model, command) := r.update m (← get).model
    modify fun a => { a with model, queue := rest }
    r.obeyAll command
    return true

end Routine

/-! ### Calling again and again -/

section Calls

variable {ε σ : Type}

def outcome : EStateM.Result ε σ α → Except ε α
  | .ok a _ => .ok a
  | .error e _ => .error e

/-- Calls an action several times, whether the calls end well or not: what each of them came to,
and the state in the end. -/
def calls (x : EStateM ε σ α) : Nat → σ → List (Except ε α) × σ
  | 0, s => ([], s)
  | n + 1, s =>
    let rest := calls x n (finalState (x.run s))
    (outcome (x.run s) :: rest.1, rest.2)

theorem finalState_bind_pure (x : EStateM ε σ α) (b : β) (s : σ) :
    finalState ((x >>= fun _ => pure b).run s) = finalState (x.run s) := by
  rw [EStateM.run_bind]
  cases x.run s <;> rfl

end Calls

/-- A call that did not find the queue empty. -/
def took {ε : Type} : Except ε Bool → Bool
  | .ok found => found
  | .error _ => true

/-! ### What a routine does to its agenda -/

namespace Routine

/-- The messages are those that were taken on the way from the first agenda to the second: they
stood first in the queue, before what was added, and each of them has updated the model. -/
structure Passes (r : Routine Model M E X) (taken : List M) (a a' : Agenda Model M X) : Prop where
  order : ∃ added, a.queue ++ added = taken ++ a'.queue
  model : a'.model = taken.foldl (fun model m => (r.update m model).1) a.model

theorem passes_nil (r : Routine Model M E X) (a : Agenda Model M X) : r.Passes [] a a :=
  ⟨⟨[], List.append_nil a.queue⟩, rfl⟩

theorem Passes.append {r : Routine Model M E X} {taken taken' : List M}
    {a a₁ a' : Agenda Model M X} (h : r.Passes taken a a₁) (h' : r.Passes taken' a₁ a') :
    r.Passes (taken ++ taken') a a' := by
  obtain ⟨added, horder⟩ := h.order
  obtain ⟨added', horder'⟩ := h'.order
  refine ⟨⟨added ++ added', ?_⟩, ?_⟩
  · rw [← List.append_assoc, horder, List.append_assoc, horder', List.append_assoc]
  · rw [h'.model, h.model, List.foldl_append]

/-- The second agenda has the same model, and a queue that goes on where the first one ends. -/
def Extends (a a' : Agenda Model M X) : Prop := a'.model = a.model ∧ a.queue <+: a'.queue

instance : IsPreorder (Agenda Model M X) Extends where
  refl a := ⟨rfl, List.prefix_refl a.queue⟩
  trans _ _ _ h h' := ⟨h'.1.trans h.1, h.2.trans h'.2⟩

/-- However the action ends, it only adds to the queue. -/
abbrev Adds (x : Agenda.Action Model M X α) : Prop := Heeds Extends (fun _ => True) x

theorem adds_enqueue (ms : List M) : Adds (Agenda.enqueue ms : Agenda.Action Model M X Unit) :=
  .modify fun a => ⟨rfl, List.prefix_append a.queue ms⟩

theorem adds_goTo (url : String) : Adds (Agenda.goTo url : Agenda.Action Model M X Url) := by
  refine .get_bind fun a => ?_
  split
  · exact ⟨fun a => refl_of Extends a, fun _ _ _ _ => trivial⟩
  · exact (Heeds.modify fun a => ⟨rfl, List.prefix_refl a.queue⟩).bind fun _ => .pure _

theorem adds_obey (r : Routine Model M E X) (c : Command E) : Adds (r.obey c) := by
  cases c with
  | none => exact .pure ()
  | batch cs => exact .pure ()
  | pushUrl url => exact (adds_goTo url).bind fun _ => adds_enqueue _
  | replaceUrl url => exact (adds_goTo url).bind fun _ => adds_enqueue _
  | loadUrl url => exact (adds_goTo url).bind fun _ => .pure ()
  | effect e =>
    rw [obey]
    split
    · exact .pure ()
    · refine .modify fun a => ⟨rfl, ?_⟩
      exact (List.prefix_append a.queue _).trans (List.prefix_append _ _)

theorem run_step_nil {r : Routine Model M E X} {a : Agenda Model M X} (h : a.queue = []) :
    r.step.run a = .ok false a := by
  rw [step, run_get_bind, h]
  rfl

theorem run_step_cons {r : Routine Model M E X} {a : Agenda Model M X} {m : M} {rest : List M}
    (h : a.queue = m :: rest) :
    r.step.run a = (do r.obeyAll (r.update m a.model).2; return true :
      Agenda.Action Model M X Bool).run
        { a with model := (r.update m a.model).1, queue := rest } := by
  rw [step, run_get_bind, h]
  rfl

/-- A step takes the first message, unless there is none. -/
theorem exists_passes_step (r : Routine Model M E X) (a : Agenda Model M X) :
    ∃ taken, r.Passes taken a (finalState (r.step.run a))
      ∧ taken.length = if took (outcome (r.step.run a)) then 1 else 0 := by
  cases hqueue : a.queue with
  | nil =>
    rw [run_step_nil hqueue]
    exact ⟨[], passes_nil r a, rfl⟩
  | cons m rest =>
    rw [run_step_cons hqueue]
    have hadds : Adds (do r.obeyAll (r.update m a.model).2; return true :
        Agenda.Action Model M X Bool) :=
      (Heeds.forM fun c _ => adds_obey r c).bind fun _ => .pure true
    obtain ⟨hmodel, added, hadded⟩ :=
      hadds.state { a with model := (r.update m a.model).1, queue := rest }
    refine ⟨[m], ⟨⟨added, ?_⟩, hmodel⟩, ?_⟩
    · rw [hqueue, ← hadded]
      rfl
    · have htook : took (outcome ((do r.obeyAll (r.update m a.model).2; return true :
          Agenda.Action Model M X Bool).run
            { a with model := (r.update m a.model).1, queue := rest })) = true := by
        cases hobey : (r.obeyAll (r.update m a.model).2).run
            { a with model := (r.update m a.model).1, queue := rest } with
        | ok u a' => rw [run_bind_of_ok hobey]; rfl
        | error e a' => rw [run_bind_of_error hobey]; rfl
      rw [htook]
      rfl

/-- Over several steps the messages are taken in the order in which they came, one with each step
that finds one. -/
theorem exists_passes_calls (r : Routine Model M E X) (n : Nat) (a : Agenda Model M X) :
    ∃ taken, r.Passes taken a (calls r.step n a).2
      ∧ taken.length = (calls r.step n a).1.countP took := by
  induction n generalizing a with
  | zero => exact ⟨[], passes_nil r a, rfl⟩
  | succ n ih =>
    obtain ⟨first, hfirst, hone⟩ := exists_passes_step r a
    obtain ⟨rest, hrest, hmany⟩ := ih (finalState (r.step.run a))
    refine ⟨first ++ rest, hfirst.append hrest, ?_⟩
    rw [List.length_append, hone, hmany, calls, List.countP_cons, Nat.add_comm]

end Routine

/-! ### Sessions and agendas -/

namespace Session

/-- What the loop works on in a session is the agenda, and the mailbox takes messages. -/
structure Matches (s : Session Model M D X) (a : Agenda Model M X) : Prop where
  model : s.live.map Live.model = some a.model
  queue : s.mailbox.queue = a.queue
  place : s.scene.surface.current = a.place
  executor : s.executor = a.executor
  isOpen : s.mailbox.isOpen = true

/-- Both calls came to the same, and left a session and its agenda. -/
inductive Agree : EStateM.Result LoopError (Session Model M D X) α →
    EStateM.Result LoopError (Agenda Model M X) α → Prop
  | ok (x : α) {s : Session Model M D X} {a : Agenda Model M X} (h : s.Matches a) :
    Agree (.ok x s) (.ok x a)
  | error (e : LoopError) {s : Session Model M D X} {a : Agenda Model M X} (h : s.Matches a) :
    Agree (.error e s) (.error e a)

theorem Agree.outcome {r : EStateM.Result LoopError (Session Model M D X) α}
    {r' : EStateM.Result LoopError (Agenda Model M X) α} (h : Agree r r') :
    outcome r = outcome r' := by
  cases h <;> rfl

theorem Agree.finalState {r : EStateM.Result LoopError (Session Model M D X) α}
    {r' : EStateM.Result LoopError (Agenda Model M X) α} (h : Agree r r') :
    (finalState r).Matches (finalState r') := by
  cases h <;> assumption

/-- Called where they match, the two actions agree. -/
def Simulates (x : Action Model M D X α) (y : Agenda.Action Model M X α) : Prop :=
  ∀ s a, s.Matches a → Agree (x.run s) (y.run a)

theorem Agree.bind {x : Action Model M D X α} {y : Agenda.Action Model M X α}
    {f : α → Action Model M D X β} {g : α → Agenda.Action Model M X β} {s : Session Model M D X}
    {a : Agenda Model M X} (h : Agree (x.run s) (y.run a)) (hf : ∀ v, Simulates (f v) (g v)) :
    Agree ((x >>= f).run s) ((y >>= g).run a) := by
  rw [EStateM.run_bind, EStateM.run_bind]
  generalize x.run s = r, y.run a = r' at h ⊢
  cases h with
  | ok v h₁ => exact hf v _ _ h₁
  | error e h₁ => exact .error e h₁

theorem Simulates.bind {x : Action Model M D X α} {y : Agenda.Action Model M X α}
    {f : α → Action Model M D X β} {g : α → Agenda.Action Model M X β} (hx : Simulates x y)
    (hf : ∀ v, Simulates (f v) (g v)) : Simulates (x >>= f) (y >>= g) :=
  fun s a h => (hx s a h).bind hf

theorem simulates_pure (v : α) :
    Simulates (pure v : Action Model M D X α) (pure v : Agenda.Action Model M X α) :=
  fun _ _ h => .ok v h

theorem simulates_post (m : M) :
    Simulates (post m : Action Model M D X Unit) (Agenda.enqueue [m]) :=
  fun _ _ h => .ok () ⟨h.model, congrArg (· ++ [m]) h.queue, h.place, h.executor, h.isOpen⟩

theorem simulates_navigate (url : String) (place : Url → Surface → Surface)
    (hplace : ∀ next f, (place next f).current = next) :
    Simulates (onSurface (do
      let next ← Surface.require ((← get).resolve url)
      modify (place next)
      return next) : Action Model M D X Url) (Agenda.goTo url) := by
  intro s a h
  rw [run_navigate, Agenda.goTo, run_get_bind, h.place]
  cases a.place.join url with
  | ok next => exact .ok next ⟨h.model, h.queue, hplace next _, h.executor, h.isOpen⟩
  | error cause => exact .error _ h

theorem simulates_perform (p : Program Flags Model M D E X) (e : E) :
    Simulates (perform p e : Action Model M D X Unit) (p.routine.obey (.effect e)) := by
  intro s a h
  rw [perform, Routine.obey, Program.routine]
  cases p.execute with
  | none => exact .ok () ⟨h.model, h.queue, h.place, h.executor, h.isOpen⟩
  | some execute =>
    have hqueue := queue_settleExecution_eq s.mailbox (execute e s.executor)
    have hopen := (isOpen_settleExecution s.mailbox (execute e s.executor)).trans h.isOpen
    rw [if_pos h.isOpen, h.executor, h.queue] at hqueue
    rw [h.executor] at hopen
    simp only [run_get_bind, h.executor]
    rw [run_bind_of_ok (run_modify _)]
    cases hfailure : (execute e a.executor).failure with
    | none =>
      refine .ok () ⟨h.model, ?_, h.place, ?_, hopen⟩
      · rw [hqueue]
        simp [hfailure]
      · rfl
    | some cause =>
      refine .ok () ⟨h.model, ?_, h.place, ?_, hopen⟩
      · simp [hfailure, Mailbox.post, hqueue]
      · rfl

theorem Simulates.forM {f : α → Action Model M D X Unit} {g : α → Agenda.Action Model M X Unit}
    {l : List α} (h : ∀ a ∈ l, Simulates (f a) (g a)) : Simulates (l.forM f) (l.forM g) := by
  induction l with
  | nil => exact simulates_pure ()
  | cons a l ih =>
    have hrest := ih fun b hb => h b (List.mem_cons_of_mem _ hb)
    exact (h a List.mem_cons_self).bind fun _ => hrest

theorem simulates_leaf (p : Program Flags Model M D E X) {c : Command E} (hc : c.IsLeaf) :
    Simulates (dispatch p c : Action Model M D X Unit) (p.routine.obey c) := by
  cases c with
  | none => exact hc.elim
  | batch commands => exact hc.elim
  | pushUrl url =>
    rw [dispatch]
    exact (simulates_navigate url
      (fun next f => { f with history := f.history ++ [next], current := next })
      fun _ _ => rfl).bind fun _ => simulates_post _
  | replaceUrl url =>
    rw [dispatch]
    exact (simulates_navigate url
      (fun next f =>
        { f with history := f.history.dropLast ++ [next], current := next })
      fun _ _ => rfl).bind fun _ => simulates_post _
  | loadUrl url =>
    rw [dispatch]
    exact (simulates_navigate url
      (fun next f =>
        { f with loads := f.loads ++ [next], history := f.history ++ [next], current := next })
      fun _ _ => rfl).bind fun _ => simulates_pure ()
  | effect e =>
    rw [dispatch]
    exact simulates_perform p e

theorem simulates_dispatch (p : Program Flags Model M D E X) (c : Command E) :
    Simulates (dispatch p c : Action Model M D X Unit) (p.routine.obeyAll c) := by
  rw [dispatch_eq_forM, Routine.obeyAll]
  exact Simulates.forM fun d hd => simulates_leaf p (Command.isLeaf_of_mem_leaves c hd)

/-! ### Whole calls -/

variable [DecidableEq M] [DecidableEq D] {p : Program Flags Model M D E X}

/-- The session is current, and what the loop works on in it is the agenda. -/
def Attends (p : Program Flags Model M D E X) (s : Session Model M D X) (a : Agenda Model M X) :
    Prop := (∃ live, Current p s live) ∧ s.Matches a

theorem Running.attends (hp : p.Admissible) {s : Session Model M D X} (h : Running p s) :
    ∃ a, Attends p s a := by
  obtain ⟨live, hcurrent⟩ := h.current hp
  exact ⟨⟨live.model, s.mailbox.queue, s.scene.surface.current, s.executor⟩, ⟨live, hcurrent⟩,
    congrArg (Option.map Live.model) hcurrent.presents.live_eq, rfl, rfl, rfl, hcurrent.isOpen⟩

/-- A start does what the command of `init` comes to, from the first model. -/
theorem agree_start (hp : p.Admissible) (settings : Settings) (url : Url) (executor : X)
    (b : Mailbox M) (hb : b.isOpen = true) (flags : Flags) :
    let s : Session Model M D X := { fresh settings url executor with mailbox := b }
    let next := p.init flags url
    let a : Agenda Model M X := ⟨next.1, b.queue, url, executor⟩
    Agree ((start p flags).run s) ((p.routine.obeyAll next.2).run a)
      ∧ ∃ live, Current p (finalState ((start p flags).run s)) live := by
  intro s next a
  obtain ⟨s₁, hrun, hrendered⟩ := run_renderFirst (s := s) (hp next.1) ⟨rfl, rfl⟩ rfl fun _ => rfl
  have hstart : (start p flags).run s = (dispatch p next.2).run s₁ :=
    run_bind_of_ok hrun fun _ => dispatch p next.2
  have hsame : s₁.surroundings = s.surroundings := by
    have h := (preserves_renderFirst p next.1).state s
    rw [hrun] at h
    exact h
  obtain ⟨hmailbox, hrest⟩ := Prod.mk.inj hsame
  obtain ⟨hexecutor, hplace⟩ := Prod.mk.inj hrest
  rw [hstart]
  constructor
  · refine simulates_dispatch p next.2 s₁ a ⟨?_, ?_, hplace, hexecutor, ?_⟩
    · exact congrArg (Option.map Live.model) hrendered.presents.live_eq
    · exact congrArg Mailbox.queue hmailbox
    · exact hmailbox ▸ hb
  · have haside := hrendered.of_aside (harmless_dispatch p next.2 s₁).1
    exact ⟨_, haside.presents, follows_upcoming hp _ _ _, haside.isOpen.trans hb⟩

theorem run_step_of_nil {s : Session Model M D X} (h : s.mailbox.queue = []) :
    (step p).run s = .ok false s := by
  rw [step, run_get_bind, Mailbox.next?, h]
  rfl

theorem run_step_of_cons {s : Session Model M D X} {m : M} {rest : List M}
    (h : s.mailbox.queue = m :: rest) :
    (step p).run s = (do process p m; return true : Action Model M D X Bool).run
      { s with mailbox := { s.mailbox with queue := rest } } := by
  rw [step, run_get_bind, Mailbox.next?, h]
  rfl

/-- The cycle of a message does what its command comes to, from the next model. -/
theorem agree_process (hp : p.Admissible) {s : Session Model M D X} {a : Agenda Model M X}
    (h : Attends p s a) (m : M) :
    let next := p.update m a.model
    Agree ((process p m).run s) ((p.routine.obeyAll next.2).run { a with model := next.1 })
      ∧ ∃ live, Current p (finalState ((process p m).run s)) live := by
  obtain ⟨⟨live, hcurrent⟩, hmatches⟩ := h
  have hmodel : live.model = a.model := by
    have hlive := hmatches.model
    rw [hcurrent.presents.live_eq] at hlive
    exact Option.some.inj hlive
  obtain ⟨s₁, hrun, hprocess, hrendered⟩ := run_process hp hcurrent.presents m
  have hsame : s₁.surroundings = s.surroundings := by
    have hstate := (preserves_renderNext p live (p.update m live.model).1).state s
    rw [hrun] at hstate
    exact hstate
  obtain ⟨hmailbox, hrest⟩ := Prod.mk.inj hsame
  obtain ⟨hexecutor, hplace⟩ := Prod.mk.inj hrest
  have hafter := rendered_process hp hcurrent.presents m
  refine ⟨?_, _, hafter.presents, follows_upcoming hp _ _ _, hafter.isOpen.trans hcurrent.isOpen⟩
  rw [hprocess, hmodel]
  refine simulates_dispatch p _ _ _ ⟨?_, ?_, ?_, ?_, ?_⟩
  · rw [← hmodel]
    exact congrArg (Option.map Live.model) hrendered.presents.live_eq
  · exact (congrArg Mailbox.queue hmailbox).trans hmatches.queue
  · exact hplace.trans hmatches.place
  · exact hexecutor.trans hmatches.executor
  · exact hrendered.isOpen.trans hcurrent.isOpen

theorem agree_step (hp : p.Admissible) {s : Session Model M D X} {a : Agenda Model M X}
    (h : Attends p s a) :
    Agree ((step p).run s) (p.routine.step.run a)
      ∧ Attends p (finalState ((step p).run s)) (finalState (p.routine.step.run a)) := by
  cases hqueue : a.queue with
  | nil =>
    rw [run_step_of_nil (h.2.queue.trans hqueue), Routine.run_step_nil hqueue]
    exact ⟨.ok false h.2, h⟩
  | cons m rest =>
    rw [run_step_of_cons (h.2.queue.trans hqueue), Routine.run_step_cons hqueue]
    obtain ⟨⟨live, hcurrent⟩, hmatches⟩ := h
    have htaken : Attends p { s with mailbox := { s.mailbox with queue := rest } }
        { a with queue := rest } := by
      obtain ⟨live_eq, hin, hground, htitle, hhead, hkeys⟩ := hcurrent.presents
      exact ⟨⟨live, ⟨live_eq, hin, hground, htitle, hhead, hkeys⟩, hcurrent.follows,
          hcurrent.isOpen⟩,
        hmatches.model, rfl, hmatches.place, hmatches.executor, hmatches.isOpen⟩
    obtain ⟨hagree, hlive⟩ := agree_process hp htaken m
    have hstep := hagree.bind fun _ => simulates_pure (D := D) true
    refine ⟨hstep, ?_, hstep.finalState⟩
    rwa [finalState_bind_pure]

/-- However often it is called, a step does what the step of the routine does. -/
theorem attends_calls (hp : p.Admissible) {s : Session Model M D X} {a : Agenda Model M X}
    (h : Attends p s a) (n : Nat) :
    (calls (step p) n s).1 = (calls p.routine.step n a).1
      ∧ Attends p (calls (step p) n s).2 (calls p.routine.step n a).2 := by
  induction n generalizing s a with
  | zero => exact ⟨rfl, h⟩
  | succ n ih =>
    obtain ⟨hagree, hattends⟩ := agree_step hp h
    obtain ⟨houtcomes, hend⟩ := ih hattends
    exact ⟨congrArg₂ List.cons hagree.outcome houtcomes, hend⟩

/-- A step fails at an address only, one that cannot be resolved where the session is. -/
theorem unresolved_of_step (hp : p.Admissible) {s s' : Session Model M D X}
    {live : Live Model (Response D M)} (h : Current p s live) {e : LoopError}
    (hrun : (step p).run s = .error e s') :
    ∃ url cause, e = .surface (.invalidUrl url cause)
      ∧ s'.scene.surface.current.join url = .error cause := by
  cases hqueue : s.mailbox.queue with
  | nil =>
    rw [run_step_of_nil hqueue] at hrun
    exact nomatch hrun
  | cons m rest =>
    rw [run_step_of_cons hqueue] at hrun
    obtain ⟨live_eq, hin, hground, htitle, hhead, hkeys⟩ := h.presents
    have hpresents : Presents { s with mailbox := { s.mailbox with queue := rest } } live :=
      ⟨live_eq, hin, hground, htitle, hhead, hkeys⟩
    cases hprocess : (process p m).run { s with mailbox := { s.mailbox with queue := rest } } with
    | ok u s₁ =>
      rw [run_bind_of_ok hprocess] at hrun
      exact nomatch hrun
    | error e₁ s₁ =>
      rw [run_bind_of_error hprocess] at hrun
      obtain ⟨rfl, rfl⟩ := EStateM.Result.error.inj hrun
      obtain ⟨url, cause, he, -, hjoin⟩ := unresolved_of_process hp hpresents hprocess
      exact ⟨url, cause, he, hjoin⟩

/-- Called `n` times, a step does what the step of the routine does with the agenda: each call comes
to the same, and so do the model, the queue, the address and the executor. The messages are taken
in the order in which they came, and a call that fails does so at an address that cannot be
resolved. -/
structure RunsAs (p : Program Flags Model M D E X) (n : Nat) (s : Session Model M D X)
    (a : Agenda Model M X) : Prop where
  outcomes : (calls (step p) n s).1 = (calls p.routine.step n a).1
  state : (calls (step p) n s).2.Matches (calls p.routine.step n a).2
  order : ∃ taken, p.routine.Passes taken a (calls p.routine.step n a).2
    ∧ taken.length = (calls p.routine.step n a).1.countP took
  failure : ∀ e s', (step p).run (calls (step p) n s).2 = .error e s' →
    ∃ url cause, e = .surface (.invalidUrl url cause)
      ∧ s'.scene.surface.current.join url = .error cause

theorem Attends.runsAs (hp : p.Admissible) {s : Session Model M D X} {a : Agenda Model M X}
    (h : Attends p s a) (n : Nat) : RunsAs p n s a := by
  obtain ⟨houtcomes, ⟨live, hcurrent⟩, hmatches⟩ := attends_calls hp h n
  exact ⟨houtcomes, hmatches, p.routine.exists_passes_calls n a, fun _ _ hrun =>
    unresolved_of_step hp hcurrent hrun⟩

/-- Nothing that is shown has a part in what the loop does. From a start with any messages waiting,
and from wherever a session has come since, it goes on as the routine of its program does. -/
theorem steps_as_routine (hp : p.Admissible) :
    (∀ (settings : Settings) (url : Url) (executor : X) (b : Mailbox M) (flags : Flags),
      b.isOpen = true →
      let next := p.init flags url
      let r := (start p flags).run { fresh settings url executor with mailbox := b }
      let r' := (p.routine.obeyAll next.2).run ⟨next.1, b.queue, url, executor⟩
      Agree r r' ∧ ∀ n, RunsAs p n (finalState r) (finalState r'))
    ∧ ∀ s : Session Model M D X, Running p s →
      ∃ a, s.Matches a ∧ ∀ n, RunsAs p n s a := by
  constructor
  · intro settings url executor b flags hb next r r'
    obtain ⟨hagree, hlive⟩ := agree_start hp settings url executor b hb flags
    exact ⟨hagree, fun n => Attends.runsAs hp ⟨hlive, hagree.finalState⟩ n⟩
  · intro s hs
    obtain ⟨a, ha⟩ := hs.attends hp
    exact ⟨a, ha.2, ha.runsAs hp⟩

/-- A program that notes its messages. The first sends it to a page, runs an effect that reports
twice, and goes astray at the end; the reports wait behind the message that came before them. -/
theorem steps_as_routine_of_errand :
    let p : Program Unit (List Nat) Nat Empty Unit Nat := {
      init := fun _ _ => ([], .none)
      update := fun m seen => (seen ++ [m],
        if m = 1 then .batch [.pushUrl "/a", .batch [.none, .effect ()], .loadUrl "http://["]
        else .none)
      view := fun seen => {
        title := "", head := [], body := .text (.keyed "page") (toString seen.length) }
      urlChanged := fun _ => 10
      effectFailed := fun _ => 30
      execute := some fun _ x => ⟨x + 1, [20], [], false, 0, some .disconnected⟩ }
    let home : Url := { scheme := "app", path := .segments [] }
    let s := finalState ((start p ()).run
      { fresh {} home 0 with mailbox := { queue := [1, 2] } })
    p.Admissible ∧
      (calls (step p) 6 s).1.map took = [true, true, true, true, true, false]
      ∧ (calls (step p) 6 s).2.live.map Live.model = some [1, 2, 10, 20, 30]
      ∧ (calls (step p) 6 s).2.scene.surface.current = { home with path := .segments ["a"] } := by
  intro p home s
  have hp : p.Admissible := fun seen => by
    refine ⟨⟨List.nodup_singleton (NodeId.keyed "page"), fun m hm => ?_⟩, List.nodup_nil⟩
    obtain rfl := List.mem_singleton.mp hm
    exact List.nodup_nil
  obtain ⟨-, hruns⟩ := (steps_as_routine hp).1 {} home 0 { queue := [1, 2] } () rfl
  have h := hruns 6
  refine ⟨hp, ?_, ?_, ?_⟩
  · rw [h.outcomes]
    rfl
  · rw [h.state.model]
    rfl
  · rw [h.state.place]
    rfl

end Session

end ViewLoop
